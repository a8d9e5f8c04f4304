import NearestMux.Search.Expansion

/-!
# The search — the nearest multiplexer first

A search takes items out of the queue until an expansion ends it or the queue is empty. An item that
was looked at before is passed by. The items that an expansion leads to enter the queue one after
the other, those of costless hops at the front and the others at the back, so items leave the queue
in the order of what the way to them costs.

Every item that can enter the queue is the start, the target of a connection, what a cell binds to a
port, or a declared wire (`itemBound`). Items looked at are different, so there are never more
rounds than such items; the number of rounds is the fuel of the search.

An answer is the first one met. The report tells besides what happened and what was counted, and it
does so also when the search ends with a fault.
-/

namespace NearestMux

/-- What comes of a search. -/
structure SearchReport where
  /-- What happened, in order. -/
  events : List Event
  /-- What was counted. -/
  stats : SearchStats
  /-- The answer, or why there is none. -/
  outcome : Except SearchFault SearchAnswer

namespace SearchReport

/-- A report with events in front of its own. -/
def after (events : List Event) (r : SearchReport) : SearchReport :=
  { r with events := events ++ r.events }

end SearchReport

/-- The number of places in a module that can give a search an item. -/
def Module.itemCount (m : Module) : Nat :=
  m.connections.length + (m.cells.toList.map fun c => c.bindings.size).foldr (· + ·) 0 +
    m.wires.size

/-- A bound on the number of different items of a search: the start, and whatever the modules can
give. -/
def Design.itemBound (d : Design) : Nat :=
  1 + (d.modules.toList.map Module.itemCount).foldr (· + ·) 0

namespace SearchSetting

/-- The rest of a search. A round passes by the items at the front of the queue that were looked at
before and expands the next one. -/
def rounds (s : SearchSetting) : Nat → Frontier → SearchStats → SearchReport
  | fuel, f, stats =>
    let old := f.queue.takeWhile f.hasVisited
    let passed := old.map Event.revisited
    let stats := stats.skip old.length
    match f.queue.dropWhile f.hasVisited with
    | [] => ⟨passed ++ [.exhausted stats], stats, .ok .notFound⟩
    | item :: queue =>
      match fuel with
      | 0 => ⟨passed, stats, .error .tooManyItems⟩
      | fuel + 1 =>
        let expansion := s.expand item
        let entered := pushes expansion.events
        let stats := stats.pop.enter (entered.map Prod.fst)
        match expansion.verdict with
        | some (.ok answer) =>
          ⟨passed ++ expansion.events ++ [.finished stats], stats, .ok answer⟩
        | some (.error fault) => ⟨passed ++ expansion.events, stats, .error fault⟩
        | none =>
          (rounds s fuel (entered.foldl Frontier.enter ⟨queue, item :: f.visited⟩) stats).after
            (passed ++ expansion.events)

/-- Searches from an item. -/
def search (s : SearchSetting) (start : Item) : SearchReport :=
  s.rounds s.design.itemBound (.start start) .zero

end SearchSetting

end NearestMux
