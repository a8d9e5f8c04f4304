import NearestMux.Journal
import NearestMux.Search.Item

/-!
# Events — what happens in a search

Whatever a search does is an event: it passes an item by, meets a multiplexer, enters an item in the
queue. The items that one item leads to are read off its events (`Event.push`), and so are the
counts at the end; the journal is the events put into words.

A hop is the way from one item to the next. Through a connection, into an instance and out to the
parent the signal stays the same signal, so these hops cost nothing and their items go to the front
of the queue. Through a multiplexer or another cell it becomes a new signal; such a hop costs one
and its item goes to the back.
-/

namespace NearestMux

/-- A way from one item to the next. -/
inductive Hop where
  /-- Through a multiplexer. -/
  | mux
  /-- Through another cell, of this type. -/
  | cell (type : String)
  /-- Through a direct connection. -/
  | connection
  /-- Into an instance. -/
  | submodule
  /-- Out to the parent. -/
  | parent
deriving DecidableEq

namespace Hop

/-- The name under which a hop is counted. -/
def label : Hop → String
  | .mux => "mux"
  | .cell type => "cell " ++ type
  | .connection => "connection"
  | .submodule => "submodule"
  | .parent => "parent"

/-- Whether the signal stays the same signal. -/
def isDirect : Hop → Bool
  | .mux => false
  | .cell _ => false
  | _ => true

/-- What a hop costs. -/
def cost (h : Hop) : Nat := if h.isDirect then 0 else 1

end Hop

/-- What a search has counted. -/
structure SearchStats where
  /-- The items taken out of the queue. -/
  popped : Nat
  /-- Those of them that were looked at before. -/
  skipped : Nat
  /-- The hop of every item entered in the queue, the first one first. -/
  hops : List Hop

namespace SearchStats

/-- Nothing is counted. -/
def zero : SearchStats := ⟨0, 0, []⟩

/-- A number of items were taken out and passed by. -/
def skip (s : SearchStats) (count : Nat) : SearchStats :=
  { s with popped := s.popped + count, skipped := s.skipped + count }

/-- One item was taken out. -/
def pop (s : SearchStats) : SearchStats := { s with popped := s.popped + 1 }

/-- Items were entered by these hops. -/
def enter (s : SearchStats) (hops : List Hop) : SearchStats := { s with hops := s.hops ++ hops }

/-- How often each label occurs among the hops, by label. -/
def counts (s : SearchStats) : List (String × Nat) :=
  let labels := s.hops.map Hop.label
  (labels.eraseDups.mergeSort (· ≤ ·)).map fun label => (label, labels.count label)

/-- One line about what was counted. -/
def summary (s : SearchStats) : String :=
  "popped=" ++ Text.natText s.popped ++ " skipped=" ++ Text.natText s.skipped ++ " hops[" ++
    String.intercalate ", " (s.counts.map fun (label, n) => label ++ "=" ++ Text.natText n) ++ "]"

end SearchStats

/-- Something that happens in a search. -/
inductive Event where
  /-- An item was looked at before. -/
  | revisited (item : Item)
  /-- A chunk is constant. -/
  | constant
  /-- A slice of a wire is looked at, in a module. -/
  | passing (wire module : String)
  /-- A multiplexer with a genuine select is found. -/
  | found (cell : String)
  /-- The select of a multiplexer is a reset. -/
  | reset (cell wire : String)
  /-- An instance binds a port that its module does not have. -/
  | missingPort (inner port cell module : String)
  /-- An item is entered in the queue. -/
  | push (hop : Hop) (item : Item)
  /-- The search ends with an answer. -/
  | finished (stats : SearchStats)
  /-- The queue is empty. -/
  | exhausted (stats : SearchStats)

namespace Event

/-- The item that an event enters in the queue, and the hop. -/
def push? : Event → Option (Hop × Item)
  | .push hop item => some (hop, item)
  | _ => none

/-- Whether an event tells of a select that is a reset. -/
def isReset : Event → Bool
  | .reset _ _ => true
  | _ => false

/-- An event put into words. -/
def entry : Event → Entry
  | .revisited item => .debug ("The current pair has already been explored: " ++ item.text)
  | .constant => .debug "The current chunk is not a wire."
  | .passing wire module => .debug ("Intermediate wire: " ++ wire ++ " (module: " ++ module ++ ")")
  | .found cell => .debug ("    Found mux " ++ cell ++ " with genuine select.")
  | .reset cell wire => .debug ("    Mux " ++ cell ++ " select " ++ wire ++ " is a reset signal.")
  | .missingPort inner port cell module => .warning
    ("Submodule " ++ inner ++ " has no port " ++ port ++ " (cell " ++ cell ++ " in " ++ module ++
      ")")
  | .push hop item => .debug
    ("  Adding " ++ item.signal.text ++ " (module: " ++ item.module ++ ") through " ++ hop.label)
  | .finished stats => .debug ("Search finished: " ++ stats.summary)
  | .exhausted stats => .debug ("Frontier exhausted: " ++ stats.summary)

end Event

/-- The items that events enter in the queue, with their hops, in order. -/
def pushes (events : List Event) : List (Hop × Item) := events.filterMap Event.push?

theorem pushes_append (first second : List Event) :
    pushes (first ++ second) = pushes first ++ pushes second := List.filterMap_append

theorem mem_pushes {hop : Hop} {item : Item} {events : List Event} :
    (hop, item) ∈ pushes events ↔ Event.push hop item ∈ events := by
  rw [pushes, List.mem_filterMap]
  constructor
  · rintro ⟨e, he, h⟩
    cases e <;> simp only [Event.push?, reduceCtorEq, Option.some.injEq, Prod.mk.injEq] at h
    obtain ⟨rfl, rfl⟩ := h
    exact he
  · intro h
    exact ⟨_, h, rfl⟩

/-- Enters an item at the end of the queue where its hop belongs. -/
def Frontier.enter (f : Frontier) (push : Hop × Item) : Frontier :=
  if push.1.isDirect then f.pushFront push.2 else f.pushBack push.2

/-- Items entered one after the other stand around the queue: those of costless hops before it, the
last one first, the others behind it. -/
theorem Frontier.foldl_enter (entered : List (Hop × Item)) (f : Frontier) :
    entered.foldl enter f =
      ⟨((entered.filter fun p => p.1.isDirect).map Prod.snd).reverse ++ f.queue ++
        (entered.filter fun p => !p.1.isDirect).map Prod.snd, f.visited⟩ := by
  induction entered generalizing f with
  | nil => simp
  | cons p rest ih =>
    rw [List.foldl_cons, ih]
    cases hp : p.1.isDirect <;> simp [enter, hp, pushFront, pushBack]

theorem Frontier.mem_queue_foldl_enter (entered : List (Hop × Item)) (f : Frontier) (i : Item) :
    i ∈ (entered.foldl enter f).queue ↔ i ∈ f.queue ∨ ∃ hop, (hop, i) ∈ entered := by
  rw [foldl_enter]
  simp only [List.mem_append, List.mem_reverse, List.mem_map, List.mem_filter, Prod.exists,
    exists_eq_right]
  constructor
  · rintro ((⟨hop, h, -⟩ | h) | ⟨hop, h, -⟩)
    · exact Or.inr ⟨hop, h⟩
    · exact Or.inl h
    · exact Or.inr ⟨hop, h⟩
  · rintro (h | ⟨hop, h⟩)
    · exact Or.inl (Or.inr h)
    · cases direct : hop.isDirect with
      | true => exact Or.inl (Or.inl ⟨hop, h, direct⟩)
      | false => exact Or.inr ⟨hop, h, by simp [direct]⟩

end NearestMux
