import Mathlib.Logic.Relation
import NearestMux.Search.Run

/-!
# Turns — the search one item at a time

A round of the search passes by whatever was looked at before and expands the next item, and a
number of rounds is given to it beforehand. Here the search is taken apart further: a turn takes one
item out of the queue (`turn`), and turns follow one another for as long as they go on (`Runs`),
with no number given. What is said of every state that a run comes to is said of every head of the
loop.

* `GoesOn.cases`, `ends_cases`: what a turn can come to. Every invariant is read off them.
* `Runs.invariant`: what a turn preserves, a run preserves.
* `rounds_runs`: rounds do what turns do, unless they run out before the items do.
-/

namespace NearestMux

/-- Where a search stands at the head of a turn. -/
structure SearchState where
  /-- The items before it and behind it. -/
  frontier : Frontier
  /-- What was counted so far. -/
  stats : SearchStats

namespace SearchState

/-- The state of a search that has not begun. -/
def start (item : Item) : SearchState := ⟨.start item, .zero⟩

/-- The state behind an item that is passed by; `rest` is the queue without it. -/
def passBy (st : SearchState) (rest : List Item) : SearchState :=
  ⟨⟨rest, st.frontier.visited⟩, st.stats.skip 1⟩

/-- The state at which a round has passed by all that it can. -/
def roundHead (st : SearchState) : SearchState :=
  ⟨⟨st.frontier.queue.dropWhile st.frontier.hasVisited, st.frontier.visited⟩,
    st.stats.skip (st.frontier.queue.takeWhile st.frontier.hasVisited).length⟩

end SearchState

/-- What a turn comes to. -/
inductive Turn where
  /-- The search goes on from a state. -/
  | goesOn (state : SearchState)
  /-- The search is at its end. -/
  | ends (stats : SearchStats) (outcome : Except SearchFault SearchAnswer)

namespace SearchSetting

variable {s : SearchSetting} {st st' : SearchState} {item : Item} {rest : List Item}
  {stats : SearchStats} {outcome : Except SearchFault SearchAnswer}

/-- What the expansion of an item enters in the queue. -/
def entered (s : SearchSetting) (item : Item) : List (Hop × Item) := pushes (s.expand item).events

/-- What is counted when an item is expanded. -/
def count (s : SearchSetting) (st : SearchState) (item : Item) : SearchStats :=
  st.stats.pop.enter ((s.entered item).map Prod.fst)

/-- The state behind an item that is expanded; `rest` is the queue without it. -/
def advance (s : SearchSetting) (st : SearchState) (item : Item) (rest : List Item) : SearchState :=
  ⟨(s.entered item).foldl Frontier.enter ⟨rest, item :: st.frontier.visited⟩, s.count st item⟩

/-- One turn: an item is taken out of the queue and passed by, or else expanded. -/
def turn (s : SearchSetting) (st : SearchState) : Turn :=
  match st.frontier.queue with
  | [] => .ends st.stats (.ok .notFound)
  | item :: rest =>
    if st.frontier.hasVisited item then .goesOn (st.passBy rest)
    else
      match (s.expand item).verdict with
      | some outcome => .ends (s.count st item) outcome
      | none => .goesOn (s.advance st item rest)

/-- A turn goes on from one state to another. -/
def GoesOn (s : SearchSetting) (st st' : SearchState) : Prop := s.turn st = .goesOn st'

/-- A number of turns go on from one state to another. -/
def Runs (s : SearchSetting) : SearchState → SearchState → Prop := Relation.ReflTransGen s.GoesOn

/-! ## What a turn comes to -/

theorem turn_of_nil (queue : st.frontier.queue = []) :
    s.turn st = .ends st.stats (.ok .notFound) := by
  rw [turn, queue]

theorem turn_of_visited (queue : st.frontier.queue = item :: rest)
    (old : st.frontier.hasVisited item = true) : s.turn st = .goesOn (st.passBy rest) := by
  simp only [turn, queue, old, ↓reduceIte]

theorem turn_of_verdict (queue : st.frontier.queue = item :: rest)
    (new : st.frontier.hasVisited item = false) (ends : (s.expand item).verdict = some outcome) :
    s.turn st = .ends (s.count st item) outcome := by
  simp only [turn, queue, new, ends, Bool.false_eq_true, ↓reduceIte]

theorem turn_of_new (queue : st.frontier.queue = item :: rest)
    (new : st.frontier.hasVisited item = false) (goes : (s.expand item).verdict = none) :
    s.turn st = .goesOn (s.advance st item rest) := by
  simp only [turn, queue, new, goes, Bool.false_eq_true, ↓reduceIte]

/-- A turn that goes on passes an item by, or expands a new one. -/
theorem GoesOn.cases (h : s.GoesOn st st') :
    ∃ item rest, st.frontier.queue = item :: rest ∧
      (st.frontier.hasVisited item = true ∧ st' = st.passBy rest ∨
        st.frontier.hasVisited item = false ∧ (s.expand item).verdict = none ∧
          st' = s.advance st item rest) := by
  unfold GoesOn at h
  cases queue : st.frontier.queue with
  | nil =>
    rw [turn_of_nil queue] at h
    cases h
  | cons item rest =>
    refine ⟨item, rest, rfl, ?_⟩
    cases old : st.frontier.hasVisited item with
    | true =>
      rw [turn_of_visited queue old] at h
      exact Or.inl ⟨rfl, (Turn.goesOn.inj h).symm⟩
    | false =>
      cases verdict : (s.expand item).verdict with
      | none =>
        rw [turn_of_new queue old verdict] at h
        exact Or.inr ⟨rfl, rfl, (Turn.goesOn.inj h).symm⟩
      | some outcome =>
        rw [turn_of_verdict queue old verdict] at h
        cases h

/-- A turn that ends the search finds the queue empty, or expands a new item to that effect. -/
theorem ends_cases (h : s.turn st = .ends stats outcome) :
    st.frontier.queue = [] ∧ stats = st.stats ∧ outcome = .ok .notFound ∨
      ∃ item rest, st.frontier.queue = item :: rest ∧ st.frontier.hasVisited item = false ∧
        (s.expand item).verdict = some outcome ∧ stats = s.count st item := by
  cases queue : st.frontier.queue with
  | nil =>
    rw [turn_of_nil queue] at h
    obtain ⟨rfl, rfl⟩ := Turn.ends.inj h
    exact Or.inl ⟨rfl, rfl, rfl⟩
  | cons item rest =>
    refine Or.inr ⟨item, rest, rfl, ?_⟩
    cases old : st.frontier.hasVisited item with
    | true =>
      rw [turn_of_visited queue old] at h
      cases h
    | false =>
      cases verdict : (s.expand item).verdict with
      | none =>
        rw [turn_of_new queue old verdict] at h
        cases h
      | some outcome =>
        rw [turn_of_verdict queue old verdict] at h
        obtain ⟨rfl, rfl⟩ := Turn.ends.inj h
        exact ⟨rfl, rfl, rfl⟩

/-- What holds at the start and is preserved by every turn holds wherever a run comes to. -/
theorem Runs.invariant {P : SearchState → Prop} (run : s.Runs st st') (start : P st)
    (preserved : ∀ {a b}, s.GoesOn a b → P a → P b) : P st' := by
  induction run with
  | refl => exact start
  | tail _ turn ih => exact preserved turn ih

/-! ## Rounds -/

/-- The items at the front of the queue that were looked at before are passed by, turn by turn. -/
theorem runs_passBy (s : SearchSetting) (queue visited : List Item) (stats : SearchStats) :
    s.Runs ⟨⟨queue, visited⟩, stats⟩
      ⟨⟨queue.dropWhile (Frontier.mk queue visited).hasVisited, visited⟩,
        stats.skip (queue.takeWhile (Frontier.mk queue visited).hasVisited).length⟩ := by
  induction queue generalizing stats with
  | nil => exact .refl
  | cons item rest ih =>
    cases old : (Frontier.mk (item :: rest) visited).hasVisited item with
    | false =>
      rw [List.dropWhile_cons_of_neg (by simp [old]), List.takeWhile_cons_of_neg (by simp [old])]
      exact .refl
    | true =>
      rw [List.dropWhile_cons_of_pos old, List.takeWhile_cons_of_pos old, List.length_cons]
      have first : s.GoesOn ⟨⟨item :: rest, visited⟩, stats⟩ ⟨⟨rest, visited⟩, stats.skip 1⟩ :=
        turn_of_visited rfl old
      have counts (n : Nat) : (stats.skip 1).skip n = stats.skip (n + 1) := by
        simp only [SearchStats.skip, Nat.add_assoc, Nat.add_comm 1]
      exact counts _ ▸ .head first (ih (stats.skip 1))

theorem runs_roundHead (s : SearchSetting) (st : SearchState) : s.Runs st st.roundHead :=
  runs_passBy s st.frontier.queue st.frontier.visited st.stats

/-- The item at which a round arrives is new. -/
theorem hasVisited_roundHead (h : st.roundHead.frontier.queue = item :: rest) :
    st.roundHead.frontier.hasVisited item = false := by
  have first := List.head?_dropWhile_not st.frontier.hasVisited st.frontier.queue
  rw [show st.frontier.queue.dropWhile st.frontier.hasVisited = item :: rest from h] at first
  exact first

theorem rounds_of_nil (fuel : Nat) (queue : st.roundHead.frontier.queue = []) :
    (s.rounds fuel st.frontier st.stats).stats = st.roundHead.stats ∧
      (s.rounds fuel st.frontier st.stats).outcome = .ok .notFound := by
  have dropped : st.frontier.queue.dropWhile st.frontier.hasVisited = [] := queue
  rw [rounds]
  simp only [dropped]
  exact ⟨rfl, trivial⟩

theorem rounds_of_verdict (fuel : Nat) (queue : st.roundHead.frontier.queue = item :: rest)
    (ends : (s.expand item).verdict = some outcome) :
    (s.rounds (fuel + 1) st.frontier st.stats).stats = s.count st.roundHead item ∧
      (s.rounds (fuel + 1) st.frontier st.stats).outcome = outcome := by
  have dropped : st.frontier.queue.dropWhile st.frontier.hasVisited = item :: rest := queue
  rw [rounds]
  simp only [dropped, ends]
  cases outcome <;> exact ⟨rfl, rfl⟩

theorem rounds_of_new (fuel : Nat) (queue : st.roundHead.frontier.queue = item :: rest)
    (goes : (s.expand item).verdict = none) :
    let next := s.advance st.roundHead item rest
    (s.rounds (fuel + 1) st.frontier st.stats).stats =
        (s.rounds fuel next.frontier next.stats).stats ∧
      (s.rounds (fuel + 1) st.frontier st.stats).outcome =
        (s.rounds fuel next.frontier next.stats).outcome := by
  have dropped : st.frontier.queue.dropWhile st.frontier.hasVisited = item :: rest := queue
  rw [rounds]
  simp only [dropped, goes]
  exact ⟨rfl, rfl⟩

/-- **Rounds are turns.** The turns from a state lead to the end that a number of rounds reports, or
the rounds run out in front of a new item, with as many items looked at as there were rounds. -/
theorem rounds_runs (s : SearchSetting) (fuel : Nat) (st : SearchState) :
    (∃ last, s.Runs st last ∧ s.turn last = .ends (s.rounds fuel st.frontier st.stats).stats
        (s.rounds fuel st.frontier st.stats).outcome) ∨
      ∃ last item rest, s.Runs st last ∧ last.frontier.queue = item :: rest ∧
        last.frontier.hasVisited item = false ∧
        last.frontier.visited.length = st.frontier.visited.length + fuel := by
  -- on the rounds; each passes by what it can and then expands one item, if there is one
  induction fuel generalizing st with
  | zero =>
    cases queue : st.roundHead.frontier.queue with
    | nil =>
      obtain ⟨hs, ho⟩ := rounds_of_nil (s := s) 0 queue
      refine Or.inl ⟨_, runs_roundHead s st, ?_⟩
      rw [hs, ho]
      exact turn_of_nil queue
    | cons item rest =>
      exact Or.inr ⟨_, item, rest, runs_roundHead s st, queue, hasVisited_roundHead queue, rfl⟩
  | succ fuel ih =>
    cases queue : st.roundHead.frontier.queue with
    | nil =>
      obtain ⟨hs, ho⟩ := rounds_of_nil (s := s) (fuel + 1) queue
      refine Or.inl ⟨_, runs_roundHead s st, ?_⟩
      rw [hs, ho]
      exact turn_of_nil queue
    | cons item rest =>
      have new := hasVisited_roundHead queue
      cases verdict : (s.expand item).verdict with
      | some outcome =>
        obtain ⟨hs, ho⟩ := rounds_of_verdict fuel queue verdict
        refine Or.inl ⟨_, runs_roundHead s st, ?_⟩
        rw [hs, ho]
        exact turn_of_verdict queue new verdict
      | none =>
        obtain ⟨hs, ho⟩ := rounds_of_new fuel queue verdict
        have first : s.Runs st (s.advance st.roundHead item rest) :=
          (runs_roundHead s st).tail (turn_of_new queue new verdict)
        rw [hs, ho]
        rcases ih (s.advance st.roundHead item rest) with
          ⟨last, run, ends⟩ | ⟨last, item', rest', run, queue', new', len⟩
        · exact Or.inl ⟨last, first.trans run, ends⟩
        · refine Or.inr ⟨last, item', rest', first.trans run, queue', new', ?_⟩
          rw [len]
          simp only [advance, Frontier.foldl_enter, SearchState.roundHead, List.length_cons]
          omega

end SearchSetting

end NearestMux
