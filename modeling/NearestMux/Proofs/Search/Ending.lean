import Mathlib.Order.Bounds.Basic
import NearestMux.Proofs.Search.Distance
import NearestMux.Proofs.Search.Lockstep

/-!
# Where a search ends — what it costs to come to its last item

A search ends at one item (`SearchSetting.StopsAt.unique`), but which one it is depends on the order
in which things are looked at: of several items that would do at the same cost the first one that is
met ends it. This module says what does not depend on an order. In a design whose modules are filed
and without processes (`Design.Lowered`) a search finds a multiplexer just when it can reach an item
at which it stops, and the cheapest way to its last item costs as much as the cheapest way to any
such item (`SearchSetting.findsAt_iff`).

So to compare two searches nothing has to be said of their queues. It is enough to compare the ways
on and the items at which they stop. Which answer is given is left open, and so is how the way was
found: two searches that find at one cost may well tell of different multiplexers.
-/

namespace NearestMux

/-- A lowered design: no module still has processes, and every module was filed, which puts its name
in marked form. So no module is called `NONE`, the name that an answer gives when nothing is found.
-/
structure Design.Lowered (d : Design) : Prop where
  filed : ∀ m ∈ d.modules.toList, ∃ name, m.name = Identifier.escape name
  processes : ∀ m ∈ d.modules.toList, m.processes = []

namespace SearchSetting

variable {s : SearchSetting} {start i j : Item} {m : Module} {n : Nat}

/-- What the ways to items at which the search stops cost. -/
def stopCosts (s : SearchSetting) (start : Item) : Set Nat :=
  {cost | ∃ i, s.Path start cost i ∧ s.Stops i}

/-- The search finds a multiplexer at a cost: its answer names something, and the cheapest way to
the item at which it ends costs that much. -/
def FindsAt (s : SearchSetting) (start : Item) (n : Nat) : Prop :=
  ∃ a i, (s.search start).outcome = .ok a ∧ a.isFound = true ∧ s.StopsAt start i ∧
    IsLeast {cost | s.Path start cost i} n

/-- A search ends at one item. -/
theorem StopsAt.unique (first : s.StopsAt start i) (second : s.StopsAt start j) : i = j := by
  obtain ⟨last, rest, run, queue, new, ends⟩ := first
  obtain ⟨last', rest', run', queue', new', ends'⟩ := second
  obtain ⟨outcome, verdict⟩ := Option.ne_none_iff_exists'.mp ends
  obtain ⟨outcome', verdict'⟩ := Option.ne_none_iff_exists'.mp ends'
  have same : last = last' := run.last_unique (turn_of_verdict queue new verdict) run'
    (turn_of_verdict queue' new' verdict')
  rw [same, queue'] at queue
  exact (List.cons.inj queue).1.symm

/-- A search stops at the item at which it ends. -/
theorem StopsAt.stops (stopsAt : s.StopsAt start i)
    (inDesign : ∃ m, s.design.module? start.module = some m) : s.Stops i := by
  obtain ⟨k, way, -⟩ := stopsAt.nearest
  obtain ⟨_, _, _, _, _, ends⟩ := stopsAt
  obtain ⟨outcome, verdict⟩ := Option.ne_none_iff_exists'.mp ends
  cases outcome with
  | ok a =>
    obtain ⟨inner, select, hit, -⟩ := hit_of_expand_verdict verdict
    exact Or.inl ⟨inner, select, hit⟩
  | error fault =>
    rcases fault_of_expand_verdict verdict with missing | ⟨inner, unresolved, -⟩
    · obtain ⟨inner, there⟩ := way.exists_module inDesign
      rw [missing] at there
      cases there
    · exact Or.inr ⟨inner, unresolved⟩

/-- The cheapest way to the last item costs no more than any way to an item at which the search
stops. -/
theorem FindsAt.isLeast (finds : s.FindsAt start n)
    (inDesign : ∃ m, s.design.module? start.module = some m) :
    IsLeast (s.stopCosts start) n := by
  obtain ⟨a, i, -, -, stopsAt, way, cheapest⟩ := finds
  obtain ⟨k, wayBack, nearest⟩ := stopsAt.nearest
  have stops := stopsAt.stops inDesign
  have le : n ≤ k := cheapest wayBack
  refine ⟨⟨i, way, stops⟩, ?_⟩
  rintro cost ⟨j, other, stopsThere⟩
  exact le.trans (nearest cost j other stopsThere)

/-- In a lowered design a search says that there is no multiplexer, and then it stops at no item
that it can reach, or it finds one at some cost. -/
theorem notFound_or_findsAt (lowered : s.design.Lowered) (hm : m ∈ s.design.modules.toList)
    (g : Signal) :
    (s.search ⟨m.name, g⟩).outcome = .ok .notFound ∧
        (∀ i, s.Reachable ⟨m.name, g⟩ i → ¬ s.Stops i) ∨
      ∃ n, s.FindsAt ⟨m.name, g⟩ n := by
  have inDesign : ∃ inner, s.design.module? m.name = some inner :=
    ⟨m, s.design.module?_eq_some_iff.mpr ⟨hm, rfl⟩⟩
  rcases s.search_ends ⟨m.name, g⟩ with none | ⟨i, stopsAt, verdict⟩
  · exact Or.inl none
  · have stops := stopsAt.stops inDesign
    obtain ⟨n, way, nearest⟩ := stopsAt.nearest
    have cheapest : IsLeast {cost | s.Path ⟨m.name, g⟩ cost i} n :=
      ⟨way, fun cost other => nearest cost i other stops⟩
    cases result : (s.search ⟨m.name, g⟩).outcome with
    | ok a =>
      rw [result] at verdict
      obtain ⟨inner, select, hit, -, rfl⟩ := hit_of_expand_verdict verdict
      obtain ⟨name, isFiled⟩ := lowered.filed inner (s.design.module?_eq_some_iff.mp hit.1).1
      exact Or.inr ⟨n, _, i, result, isFound_of_filed isFiled, stopsAt, cheapest⟩
    | error fault =>
      rw [result] at verdict
      rcases fault_of_expand_verdict verdict with missing | ⟨inner, ⟨found, unresolved⟩, -⟩
      · obtain ⟨inner, there⟩ := way.exists_module inDesign
        rw [missing] at there
        cases there
      · have hinner := (s.design.module?_eq_some_iff.mp found).1
        exact absurd (lowered.processes inner hinner) unresolved

/-- **What a search finds at does not depend on an order.** In a lowered design it finds a
multiplexer at a cost just when that is the least cost of a way to an item at which it stops. -/
theorem findsAt_iff (lowered : s.design.Lowered) (hm : m ∈ s.design.modules.toList) (g : Signal) :
    s.FindsAt ⟨m.name, g⟩ n ↔ IsLeast (s.stopCosts ⟨m.name, g⟩) n := by
  have inDesign : ∃ inner, s.design.module? m.name = some inner :=
    ⟨m, s.design.module?_eq_some_iff.mpr ⟨hm, rfl⟩⟩
  refine ⟨fun finds => finds.isLeast inDesign, fun least => ?_⟩
  rcases notFound_or_findsAt lowered hm g with ⟨-, nowhere⟩ | ⟨n', finds⟩
  · obtain ⟨i, way, stops⟩ := least.1
    exact absurd stops (nowhere i ⟨n, way⟩)
  · rw [least.unique (finds.isLeast inDesign)]
    exact finds

end SearchSetting

end NearestMux
