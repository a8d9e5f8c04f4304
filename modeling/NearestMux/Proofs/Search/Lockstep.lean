import Mathlib.Data.List.Forall2
import Mathlib.Data.Option.Basic
import NearestMux.Proofs.Search.Termination

/-!
# Searches in lockstep — two settings that search alike

Two designs may differ and still be searched in the same way. To see it, the two searches are put
side by side: their items are paired by a relation, and it is enough to look at one expansion. When
paired items are expanded to paired items, by the same hops and in the same order, and come to an
end together, then the two searches count the same and their outcomes are paired
(`SearchSetting.Lockstep.search`).

Of the relation it is asked that it pairs keys one to one, because a search passes items by when it
has met their keys. Nothing is asked of the designs, of the indexes or of the number of rounds; the
number need not even be the same on both sides, for the comparison is of turns (`Runs`), and turns
lead to one end only (`Runs.ends_unique`).

What is noted on the way is not compared. Events other than entries in the queue may differ.
-/

namespace NearestMux

variable {R : Item → Item → Prop}
  {V : Except SearchFault SearchAnswer → Except SearchFault SearchAnswer → Prop}

/-- Hops are the same and the items behind them are paired. -/
def PairedPush (R : Item → Item → Prop) (push push' : Hop × Item) : Prop :=
  push.1 = push'.1 ∧ R push.2 push'.2

theorem hops_eq_of_paired {entered entered' : List (Hop × Item)}
    (pushed : List.Forall₂ (PairedPush R) entered entered') :
    entered.map Prod.fst = entered'.map Prod.fst := by
  have hops : List.Forall₂ Eq (entered.map Prod.fst) (entered'.map Prod.fst) :=
    List.rel_map (fun _ _ pair => pair.1) pushed
  rwa [List.forall₂_eq_eq_eq] at hops

/-! ## Cells -/

/-- Where the selected cells of a module are those of another one, changed one by one, a question
picks out the changed ones of those that it picked out before, if it takes the change into account.
-/
theorem Design.filter_selectedCells_map {d d' : Design} {m m' : Module} {change : Cell → Cell}
    {p p' : Cell → Bool} (selected : d'.selectedCells m' = (d.selectedCells m).map change)
    (keeps : ∀ c ∈ m.cells.toList, p' (change c) = p c) :
    (d'.selectedCells m').filter p' = ((d.selectedCells m).filter p).map change := by
  rw [selected, List.filter_map]
  refine congrArg _ (List.filter_congr fun c hc => ?_)
  exact keeps c (d.mem_selectedCells.mp hc).1

/-! ## Expansions -/

namespace Expansion

variable {e e' f f' : Expansion}

/-- Two expansions enter paired items, and end the search on both sides or on neither. -/
structure Alike (R : Item → Item → Prop)
    (V : Except SearchFault SearchAnswer → Except SearchFault SearchAnswer → Prop)
    (e e' : Expansion) : Prop where
  entered : List.Forall₂ (PairedPush R) (pushes e.events) (pushes e'.events)
  verdict : Option.Rel V e.verdict e'.verdict

theorem Alike.going {events events' : List Event}
    (entered : List.Forall₂ (PairedPush R) (pushes events) (pushes events')) :
    Alike R V (.going events) (.going events') := ⟨entered, .none⟩

/-- Alike expansions stay alike when alike ones come behind them. -/
theorem Alike.andThen (first : e.Alike R V e') (second : f.Alike R V f') :
    (e.andThen f).Alike R V (e'.andThen f') := by
  cases e with | mk events verdict =>
  cases e' with | mk events' verdict' =>
  obtain ⟨entered, verdicts⟩ := first
  dsimp only at entered verdicts
  cases verdicts with
  | some related => exact ⟨entered, .some related⟩
  | none =>
    refine ⟨?_, second.verdict⟩
    change List.Forall₂ _ (pushes (events ++ f.events)) (pushes (events' ++ f'.events))
    rw [pushes_append, pushes_append]
    exact List.rel_append entered second.entered

/-- Expansions that enter the same and end in the same way are alike. -/
theorem Alike.of_eq (entered : pushes e.events = pushes e'.events)
    (verdict : e.verdict = e'.verdict) : e.Alike Eq Eq e' := by
  constructor
  · rw [entered]
    exact List.forall₂_same.mpr fun _ _ => ⟨rfl, rfl⟩
  · rw [verdict]
    cases e'.verdict with
    | none => exact .none
    | some _ => exact .some rfl

end Expansion

theorem SearchSetting.alike_expandChunks {s t : SearchSetting} {m m' : Module}
    (wires : ∀ w, (s.expandWire m w).Alike R V (t.expandWire m' w)) (chunks : List Chunk) :
    (s.expandChunks m chunks).Alike R V (t.expandChunks m' chunks) := by
  induction chunks with
  | nil => exact .going .nil
  | cons c _ ih =>
    cases c with
    | const _ =>
      have constant : (Expansion.going [.constant]).Alike R V (.going [.constant]) := .going .nil
      exact constant.andThen ih
    | slice wire _ _ _ => exact (wires wire).andThen ih

/-! ## Frontiers -/

namespace Frontier

variable {f f' : Frontier}

/-- The items of two frontiers are paired, place by place. -/
structure Abreast (R : Item → Item → Prop) (f f' : Frontier) : Prop where
  queue : List.Forall₂ R f.queue f'.queue
  visited : List.Forall₂ R f.visited f'.visited

theorem Abreast.enter (abreast : f.Abreast R f') {push push' : Hop × Item}
    (pushed : PairedPush R push push') : (f.enter push).Abreast R (f'.enter push') := by
  obtain ⟨hop, item⟩ := push
  obtain ⟨_, item'⟩ := push'
  obtain ⟨rfl, paired⟩ := pushed
  unfold Frontier.enter
  split
  · exact ⟨.cons paired abreast.queue, abreast.visited⟩
  · exact ⟨List.rel_append abreast.queue (.cons paired .nil), abreast.visited⟩

theorem Abreast.foldl_enter (abreast : f.Abreast R f') {entered entered' : List (Hop × Item)}
    (pushed : List.Forall₂ (PairedPush R) entered entered') :
    (entered.foldl Frontier.enter f).Abreast R (entered'.foldl Frontier.enter f') := by
  induction pushed generalizing f f' with
  | nil => exact abreast
  | cons first _ ih => exact ih (abreast.enter first)

end Frontier

namespace SearchSetting

variable {s t : SearchSetting} {i i' : Item} {st st' : SearchState}

/-! ## Turns -/

/-- Two states have paired items before and behind them, and have counted the same. -/
structure Abreast (R : Item → Item → Prop) (st st' : SearchState) : Prop where
  frontier : st.frontier.Abreast R st'.frontier
  stats : st.stats = st'.stats

/-- Two turns go on to states abreast, or end both searches. -/
inductive TurnsAlike (R : Item → Item → Prop)
    (V : Except SearchFault SearchAnswer → Except SearchFault SearchAnswer → Prop) :
    Turn → Turn → Prop where
  | goesOn {st st' : SearchState} (abreast : Abreast R st st') :
      TurnsAlike R V (.goesOn st) (.goesOn st')
  | ends {stats : SearchStats} {outcome outcome' : Except SearchFault SearchAnswer}
      (related : V outcome outcome') : TurnsAlike R V (.ends stats outcome) (.ends stats outcome')

/-- Two settings expand paired items alike. -/
structure Lockstep (s t : SearchSetting) (R : Item → Item → Prop)
    (V : Except SearchFault SearchAnswer → Except SearchFault SearchAnswer → Prop) : Prop where
  keys : ∀ {i i' j j'}, R i i' → R j j' → (i.key = j.key ↔ i'.key = j'.key)
  expand : ∀ {i i'}, R i i' → (s.expand i).Alike R V (t.expand i')
  notFound : V (.ok .notFound) (.ok .notFound)

/-- Of paired items both were looked at before or neither. -/
theorem Lockstep.hasVisited_eq (lockstep : s.Lockstep t R V) {f f' : Frontier}
    (abreast : f.Abreast R f') (paired : R i i') : f.hasVisited i = f'.hasVisited i' := by
  rw [Bool.eq_iff_iff, f.hasVisited_iff, f'.hasVisited_iff]
  have visited := abreast.visited
  generalize f.visited = items, f'.visited = items' at visited
  induction visited with
  | nil => exact iff_of_false List.not_mem_nil List.not_mem_nil
  | cons first _ ih =>
    rw [List.map_cons, List.map_cons, List.mem_cons, List.mem_cons]
    exact or_congr (lockstep.keys paired first) ih

theorem Lockstep.count_eq (lockstep : s.Lockstep t R V) (abreast : Abreast R st st')
    (paired : R i i') : s.count st i = t.count st' i' := by
  have hops : (s.entered i).map Prod.fst = (t.entered i').map Prod.fst :=
    hops_eq_of_paired (lockstep.expand paired).entered
  rw [count, count, hops, abreast.stats]

/-- What one turn does on one side, one turn does on the other. -/
theorem Lockstep.turn (lockstep : s.Lockstep t R V) (abreast : Abreast R st st') :
    TurnsAlike R V (s.turn st) (t.turn st') := by
  have queues := abreast.frontier.queue
  cases queue : st.frontier.queue with
  | nil =>
    rw [queue, List.forall₂_nil_left_iff] at queues
    rw [turn_of_nil queue, turn_of_nil queues, abreast.stats]
    exact .ends lockstep.notFound
  | cons i rest =>
    rw [queue, List.forall₂_cons_left_iff] at queues
    obtain ⟨i', rest', paired, others, queue'⟩ := queues
    have same := lockstep.hasVisited_eq abreast.frontier paired
    cases old : st.frontier.hasVisited i with
    | true =>
      rw [turn_of_visited queue old, turn_of_visited queue' (same ▸ old)]
      refine .goesOn ⟨⟨others, abreast.frontier.visited⟩, ?_⟩
      exact congrArg (SearchStats.skip · 1) abreast.stats
    | false =>
      have counts := lockstep.count_eq abreast paired
      have expansion := lockstep.expand paired
      have verdicts := expansion.verdict
      generalize verdict : (s.expand i).verdict = v, verdict' : (t.expand i').verdict = v'
        at verdicts
      cases verdicts with
      | none =>
        rw [turn_of_new queue old verdict, turn_of_new queue' (same ▸ old) verdict']
        refine .goesOn ⟨?_, counts⟩
        have begun : Frontier.Abreast R ⟨rest, i :: st.frontier.visited⟩
            ⟨rest', i' :: st'.frontier.visited⟩ := ⟨others, .cons paired abreast.frontier.visited⟩
        exact begun.foldl_enter expansion.entered
      | some related =>
        rw [turn_of_verdict queue old verdict, turn_of_verdict queue' (same ▸ old) verdict', counts]
        exact .ends related

/-! ## Runs -/

theorem goesOn_unique : Relator.RightUnique s.GoesOn := by
  intro a b c first second
  exact Turn.goesOn.inj (first.symm.trans second)

/-- The turns from a state come to a stand in one state. -/
theorem Runs.last_unique {last last' : SearchState} {stats stats' : SearchStats}
    {outcome outcome' : Except SearchFault SearchAnswer} (run : s.Runs st last)
    (ends : s.turn last = .ends stats outcome) (run' : s.Runs st last')
    (ends' : s.turn last' = .ends stats' outcome') : last = last' := by
  have stays {a b : SearchState} {stats : SearchStats}
      {outcome : Except SearchFault SearchAnswer} (ended : s.turn a = .ends stats outcome)
      (onward : s.Runs a b) : a = b := by
    rcases onward.cases_head with same | ⟨c, goes, -⟩
    · exact same
    · rw [GoesOn, ended] at goes
      cases goes
  rcases Relation.ReflTransGen.total_of_right_unique goesOn_unique run run' with onward | onward
  · exact stays ends onward
  · exact (stays ends' onward).symm

/-- The turns from a state lead to one end. -/
theorem Runs.ends_unique {last last' : SearchState} {stats stats' : SearchStats}
    {outcome outcome' : Except SearchFault SearchAnswer} (run : s.Runs st last)
    (ends : s.turn last = .ends stats outcome) (run' : s.Runs st last')
    (ends' : s.turn last' = .ends stats' outcome') : stats = stats' ∧ outcome = outcome' := by
  rw [run.last_unique ends run' ends', ends'] at ends
  obtain ⟨sameStats, sameOutcome⟩ := Turn.ends.inj ends
  exact ⟨sameStats.symm, sameOutcome.symm⟩

/-- Wherever a run comes to on one side, a run comes to on the other. -/
theorem Lockstep.runs (lockstep : s.Lockstep t R V) {last : SearchState}
    (abreast : Abreast R st st') (run : s.Runs st last) :
    ∃ last', t.Runs st' last' ∧ Abreast R last last' := by
  refine run.invariant (P := fun a => ∃ b, t.Runs st' b ∧ Abreast R a b) ⟨st', .refl, abreast⟩ ?_
  rintro a a' goes ⟨b, run', beside⟩
  have alike := lockstep.turn beside
  rw [goes] at alike
  generalize turn : t.turn b = result at alike
  cases alike with
  | goesOn next => exact ⟨_, run'.tail turn, next⟩

/-- **Lockstep.** Searches from paired items count the same and come to paired outcomes. -/
theorem Lockstep.search (lockstep : s.Lockstep t R V) (paired : R i i') :
    (s.search i).stats = (t.search i').stats ∧ V (s.search i).outcome (t.search i').outcome := by
  obtain ⟨last, run, ends⟩ := s.search_runs i
  obtain ⟨last', run', ends'⟩ := t.search_runs i'
  have start : Abreast R (.start i) (.start i') := ⟨⟨.cons paired .nil, .nil⟩, rfl⟩
  -- the run on the left has a run beside it, whose end is the one that the right side reports
  obtain ⟨other, along, abreast⟩ := lockstep.runs start run
  have alike := lockstep.turn abreast
  rw [ends] at alike
  generalize turn : t.turn other = result at alike
  cases alike with
  | ends related =>
    obtain ⟨sameStats, sameOutcome⟩ := along.ends_unique turn run' ends'
    exact ⟨sameStats, sameOutcome ▸ related⟩

end SearchSetting

end NearestMux
