import Mathlib.Algebra.BigOperators.Group.List.Lemmas
import Mathlib.Data.Set.Card
import NearestMux.Proofs.Lists
import NearestMux.Proofs.Search.Distance
import NearestMux.Proofs.Search.Lockstep

/-!
# Counting — what a search tells of its work

Three numbers are kept while a search runs: the items taken out of the queue, those of them that
were passed by, and the hops by which items were entered, label by label. Nothing checks them
against the queue and the items looked at. This module says that they account for every item.

* Whatever was entered was taken out or is still queued, and one item more, the start
  (`Runs.balanced`).
* Whatever was taken out was passed by or looked at, and no item is looked at twice
  (`Tracked`, as in `Proofs.Search.Termination`).

A search that comes to an empty queue has looked at everything it can reach
(`Runs.mem_visited_iff`). So its numbers tell how much that is (`SearchSetting.search_counts`).
Items are told apart by their keys, here as there.
-/

namespace NearestMux

/-! ## The hops of all labels -/

namespace SearchStats

/-- The sum of what is counted under all labels. -/
def hopCount (s : SearchStats) : Nat := (s.counts.map Prod.snd).sum

/-- Every hop is counted under one label. -/
theorem hopCount_eq_length (s : SearchStats) : s.hopCount = s.hops.length := by
  let labels := s.hops.map Hop.label
  have perm : (labels.eraseDups.mergeSort (· ≤ ·)).Perm labels.dedup := by
    refine (List.mergeSort_perm _ _).trans ?_
    rw [List.perm_ext_iff_of_nodup (nodup_eraseDups labels) labels.nodup_dedup]
    exact fun label => by rw [List.mem_eraseDups, List.mem_dedup]
  calc s.hopCount
      = ((labels.eraseDups.mergeSort (· ≤ ·)).map fun label => labels.count label).sum := by
        rw [hopCount, counts, List.map_map]
        rfl
    _ = (labels.dedup.map fun label => labels.count label).sum := (perm.map _).sum_eq
    _ = labels.length := labels.sum_map_count_dedup_eq_length
    _ = s.hops.length := List.length_map _

end SearchStats

/-! ## The heads of the loop -/

theorem Frontier.length_queue_enter (f : Frontier) (push : Hop × Item) :
    (f.enter push).queue.length = f.queue.length + 1 := by
  unfold enter
  split
  · exact List.length_cons
  · exact List.length_append

theorem Frontier.length_queue_foldl_enter (entered : List (Hop × Item)) (f : Frontier) :
    (entered.foldl enter f).queue.length = f.queue.length + entered.length := by
  induction entered generalizing f with
  | nil => rfl
  | cons push rest ih =>
    rw [List.foldl_cons, ih, length_queue_enter, List.length_cons]
    omega

/-- Whatever was entered in the queue, and the start, was taken out of it or is still in it. -/
def SearchState.Balanced (st : SearchState) : Prop :=
  st.stats.popped + st.frontier.queue.length = 1 + st.stats.hops.length

namespace SearchSetting

variable {s : SearchSetting} {start i item : Item} {st st' : SearchState}

theorem GoesOn.balanced (turn : s.GoesOn st st') (balanced : st.Balanced) : st'.Balanced := by
  obtain ⟨item, rest, queue, ⟨-, rfl⟩ | ⟨-, -, rfl⟩⟩ := turn.cases
  all_goals
    rw [SearchState.Balanced, queue, List.length_cons] at balanced
    rw [SearchState.Balanced]
  · simp only [SearchState.passBy, SearchStats.skip]
    omega
  · simp only [advance, Frontier.length_queue_foldl_enter, count, SearchStats.pop,
      SearchStats.enter, List.length_append, List.length_map]
    omega

theorem Runs.balanced (run : s.Runs (.start start) st) : st.Balanced :=
  run.invariant rfl fun turn balanced => turn.balanced balanced

/-- The items in the queue and those looked at can be reached from the start. -/
def Reaches (s : SearchSetting) (start : Item) (st : SearchState) : Prop :=
  ∀ i, i ∈ st.frontier.queue ∨ i ∈ st.frontier.visited → s.Reachable start i

theorem GoesOn.reaches (turn : s.GoesOn st st') (reaches : s.Reaches start st) :
    s.Reaches start st' := by
  obtain ⟨item, rest, queue, step⟩ := turn.cases
  have next : s.Reachable start item := reaches item (.inl (queue ▸ List.mem_cons_self))
  have queued : ∀ i ∈ rest, s.Reachable start i := fun i hi =>
    reaches i (.inl (queue ▸ List.mem_cons_of_mem _ hi))
  rcases step with ⟨-, rfl⟩ | ⟨-, -, rfl⟩
  · rintro i (hi | hi)
    · exact queued i hi
    · exact reaches i (.inr hi)
  · rintro i (hi | hi)
    · rcases (Frontier.mem_queue_foldl_enter _ _ i).mp hi with hi | ⟨hop, entered⟩
      · exact queued i hi
      · obtain ⟨cost, way⟩ := next
        exact ⟨_, way.snoc (leads_of_mem_pushes entered)⟩
    · simp only [advance, Frontier.foldl_enter] at hi
      rcases List.mem_cons.mp hi with rfl | hi
      · exact next
      · exact reaches i (.inr hi)

theorem Runs.reaches (run : s.Runs (.start start) st) : s.Reaches start st := by
  refine run.invariant ?_ fun turn reaches => turn.reaches reaches
  rintro i (hi | hi)
  · exact ⟨0, List.mem_singleton.mp hi ▸ .nil⟩
  · cases hi

/-! ## Searches that come to an empty queue -/

/-- The keys of the items that can be reached from one. -/
def reachableKeys (s : SearchSetting) (start : Item) : Set (String × List Chunk.Key) :=
  Item.key '' {i | s.Reachable start i}

/-- A search comes to an empty queue. -/
def Exhausts (s : SearchSetting) (start : Item) : Prop :=
  ∃ last, s.Runs (.start start) last ∧ last.frontier.queue = []

/-- With an empty queue all that can be reached was looked at. -/
theorem Runs.mem_visited_iff (run : s.Runs (.start start) st) (empty : st.frontier.queue = [])
    {key : String × List Chunk.Key} :
    key ∈ st.frontier.visited.map Item.key ↔ key ∈ s.reachableKeys start := by
  constructor
  · intro visited
    obtain ⟨i, hi, rfl⟩ := List.mem_map.mp visited
    exact ⟨i, run.reaches i (.inr hi), rfl⟩
  · rintro ⟨i, reachable, rfl⟩
    exact run.swept.visited_of_reachable empty reachable

theorem Exhausts.search (exhausts : s.Exhausts start) :
    ∃ last, s.Runs (.start start) last ∧ last.frontier.queue = [] ∧
      (s.search start).stats = last.stats ∧ (s.search start).outcome = .ok .notFound := by
  obtain ⟨last, run, empty⟩ := exhausts
  obtain ⟨last', run', ends⟩ := s.search_runs start
  obtain ⟨stats, outcome⟩ := run'.ends_unique ends run (turn_of_nil empty)
  exact ⟨last, run, empty, stats, outcome⟩

/-- Where modules were filed, a search that says that there is no multiplexer came to an empty
queue: no answer that tells of a hit says the same. -/
theorem exhausts_of_notFound
    (filed : ∀ m ∈ s.design.modules.toList, ∃ name, m.name = Identifier.escape name)
    (notFound : (s.search start).outcome = .ok .notFound) : s.Exhausts start := by
  obtain ⟨last, run, ends⟩ := s.search_runs start
  rw [notFound] at ends
  rcases ends_cases ends with ⟨empty, -, -⟩ | ⟨item, rest, -, -, verdict, -⟩
  · exact ⟨last, run, empty⟩
  · obtain ⟨m, select, ⟨there, -⟩, -, tells⟩ := hit_of_expand_verdict verdict
    obtain ⟨name, isFiled⟩ := filed m (s.design.module?_eq_some_iff.mp there).1
    have isFound : SearchAnswer.isFound ⟨m.shownName select.name, m.name⟩ = true :=
      isFound_of_filed isFiled
    rw [← tells] at isFound
    cases isFound

/-- A search takes out no more than it entered, and its start. -/
theorem popped_le (s : SearchSetting) (start : Item) :
    (s.search start).stats.popped ≤ 1 + (s.search start).stats.hops.length := by
  obtain ⟨last, run, ends⟩ := s.search_runs start
  have balanced := run.balanced
  rw [SearchState.Balanced] at balanced
  rcases ends_cases ends with ⟨-, counted, -⟩ | ⟨item, rest, queue, -, -, counted⟩
  · rw [counted]
    omega
  · -- the last item was in the queue, and it may have entered others before it ended the search
    rw [queue, List.length_cons] at balanced
    rw [counted]
    simp only [count, SearchStats.pop, SearchStats.enter, List.length_append]
    omega

/-- **Counting.** At every head of the loop the items taken out of the queue and those still in it
are the start and one for each hop, and the items taken out are those passed by and those looked at,
of which no two are the same. So no search takes out more than the start and one for each hop. One
that comes to an empty queue has taken out just as many, and those that it did not pass by are as
many as can be reached from the start. Where modules were filed, every search that says that there
is no multiplexer came to an empty queue. -/
theorem search_counts (s : SearchSetting) (start : Item) :
    (∃ last, s.Runs (.start start) last ∧
      s.turn last = .ends (s.search start).stats (s.search start).outcome) ∧
    (∀ st, s.Runs (.start start) st →
      st.stats.popped + st.frontier.queue.length = 1 + st.stats.hopCount ∧
        st.stats.popped = st.stats.skipped + st.frontier.visited.length ∧
        (st.frontier.visited.map Item.key).Nodup) ∧
    (s.search start).stats.popped ≤ 1 + (s.search start).stats.hopCount ∧
    (s.Exhausts start → (s.search start).outcome = .ok .notFound ∧
      (s.search start).stats.popped = 1 + (s.search start).stats.hopCount ∧
      (s.reachableKeys start).Finite ∧
      (s.search start).stats.popped =
        (s.search start).stats.skipped + (s.reachableKeys start).ncard) ∧
    ((∀ m ∈ s.design.modules.toList, ∃ name, m.name = Identifier.escape name) →
      (s.search start).outcome = .ok .notFound → s.Exhausts start) := by
  simp only [SearchStats.hopCount_eq_length]
  refine ⟨s.search_runs start, fun st run => ?_, s.popped_le start, fun exhausts => ?_,
    exhausts_of_notFound⟩
  · exact ⟨run.balanced, run.tracked.counted, run.tracked.distinct⟩
  · obtain ⟨last, run, empty, counted, outcome⟩ := exhausts.search
    have all : s.reachableKeys start = ↑(last.frontier.visited.map Item.key).toFinset := by
      ext key
      rw [Finset.mem_coe, List.mem_toFinset, run.mem_visited_iff empty]
    have balanced := run.balanced
    rw [SearchState.Balanced, empty, List.length_nil, Nat.add_zero] at balanced
    refine ⟨outcome, counted ▸ balanced, all ▸ Finset.finite_toSet _, ?_⟩
    rw [all, Set.ncard_coe_finset, List.toFinset_card_of_nodup run.tracked.distinct,
      List.length_map, counted]
    exact run.tracked.counted

/-- A module in which `\x` drives `\y` twice, and `\y` drives `\x`. -/
def looped : SearchSetting where
  design :=
    let x : Signal := .ofWire (.bit "\\x")
    let y : Signal := .ofWire (.bit "\\y")
    ⟨⟨[{ Module.new "\\top" with connections := [⟨y, x⟩, ⟨y, x⟩, ⟨x, y⟩] }], by decide⟩, none,
      .everything⟩
  index := ⟨⟨["\\top"], []⟩, ["\\top"], []⟩
  rule := .customary

theorem search_counts_looped : let start : Item := ⟨"\\top", .ofWire (.bit "\\x")⟩
    (∀ m ∈ looped.design.modules.toList, ∃ name, m.name = Identifier.escape name) ∧
      (looped.search start).outcome = .ok .notFound ∧ looped.Exhausts start ∧
      (looped.search start).stats.popped = 4 ∧ (looped.search start).stats.skipped = 2 ∧
      (looped.search start).stats.hopCount = 3 ∧ (looped.reachableKeys start).ncard = 2 := by
  intro start
  have filed : ∀ m ∈ looped.design.modules.toList, ∃ name, m.name = Identifier.escape name :=
    fun m hm => ⟨"top", List.mem_singleton.mp hm ▸ rfl⟩
  have outcome : (looped.search start).outcome = .ok .notFound := by decide +kernel
  have popped : (looped.search start).stats.popped = 4 := by decide +kernel
  have skipped : (looped.search start).stats.skipped = 2 := by decide +kernel
  obtain ⟨-, -, -, counts, ends⟩ := search_counts looped start
  have exhausts := ends filed outcome
  obtain ⟨-, hops, -, reached⟩ := counts exhausts
  exact ⟨filed, outcome, exhausts, popped, skipped, by omega, by omega⟩

end SearchSetting

end NearestMux
