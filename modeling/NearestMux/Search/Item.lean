import NearestMux.Signal.Text

/-!
# Items and the frontier — what a search has before it

A search goes from item to item; an item is a signal in a module. Two items are the same when they
are in modules of one name and their signals have one key, so an item is not searched twice because
it was reached through another copy of its wires.

The frontier is the queue of items still to be looked at and the items looked at before. Items enter
the queue at either end and leave it at the front.
-/

namespace NearestMux

/-- A signal in a module. -/
structure Item where
  /-- The name of the module. -/
  module : String
  /-- The signal. -/
  signal : Signal

namespace Item

/-- What items are compared by. -/
def key (i : Item) : String × List Chunk.Key := (i.module, i.signal.key)

/-- Two items are the same when their keys are. -/
def same (i j : Item) : Bool := i.key == j.key

theorem same_iff (i j : Item) : i.same j = true ↔ i.key = j.key := by
  rw [same, beq_iff_eq]

/-- The text of an item. -/
def text (i : Item) : String := i.module ++ ":" ++ i.signal.text

end Item

/-- What is still to be looked at, and what was looked at before. -/
structure Frontier where
  /-- The items still to be looked at, the next one first. -/
  queue : List Item
  /-- The items looked at before, no two of them the same. -/
  visited : List Item

namespace Frontier

/-- The frontier without items. -/
def empty : Frontier := ⟨[], []⟩

/-- The frontier of a search that has not begun. -/
def start (item : Item) : Frontier := ⟨[item], []⟩

/-- Enters an item at the front of the queue. -/
def pushFront (f : Frontier) (item : Item) : Frontier := { f with queue := item :: f.queue }

/-- Enters an item at the back of the queue. -/
def pushBack (f : Frontier) (item : Item) : Frontier := { f with queue := f.queue ++ [item] }

/-- Takes the next item out of the queue. -/
def pop? (f : Frontier) : Option (Item × Frontier) :=
  match f.queue with
  | [] => none
  | item :: rest => some (item, { f with queue := rest })

/-- Whether an item was looked at before. -/
def hasVisited (f : Frontier) (item : Item) : Bool := f.visited.any item.same

theorem hasVisited_iff (f : Frontier) (item : Item) :
    f.hasVisited item = true ↔ item.key ∈ f.visited.map Item.key := by
  rw [hasVisited, List.any_eq_true, List.mem_map]
  simp only [Item.same_iff, eq_comm (a := item.key)]

/-- Notes that an item is looked at; nothing changes when it was before. -/
def mark (f : Frontier) (item : Item) : Frontier :=
  if f.hasVisited item then f else { f with visited := item :: f.visited }

end Frontier

end NearestMux
