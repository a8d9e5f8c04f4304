import NearestMux.Proofs.Search.Distance
import NearestMux.Proofs.Search.Lockstep

/-!
# Sameness — an item stands for all items of its key

Two items are the same to a search when their keys are, and a key leaves much out: where a wire was
declared, how many bits it has beyond the slice, whether the slice is all of it. A search that
passes by an item because it has met the key of another one relies on it that none of this makes a
difference.

It makes none, since each of the five ways on is handed the wire of a slice and asks it for its name
alone (`expandWire_eq_of_name_eq`). So same items are expanded to the same events
(`expand_eq_of_key_eq`), searches from same items run in lockstep (`lockstep_same`), and an item
that is passed by leads nowhere that is not looked at already or waits in the queue
(`Swept.passed`). `expand_same` puts this together.

Same items need not read the same: an item that is all of its wire is written by the name alone, and
the same item cut from a wider wire by its bits.
-/

namespace NearestMux

/-- Two items are the same to a search. -/
def Item.Same (i j : Item) : Prop := i.same j = true

theorem Item.Same.key_eq {i j : Item} (same : i.Same j) : i.key = j.key := (i.same_iff j).mp same

theorem Item.Same.refl (i : Item) : i.Same i := (i.same_iff i).mpr rfl

namespace SearchSetting

variable {s : SearchSetting} {start i j item : Item} {hop : Hop} {st st' : SearchState}
  {rest rest' : List Item}

/-! ## Same items in lockstep -/

/-- Expansions of same items enter the same items by the same hops, and end in the same way. -/
theorem alike_expand_same (s : SearchSetting) (same : i.Same j) :
    (s.expand i).Alike Item.Same Eq (s.expand j) := by
  rw [expand_eq_of_key_eq same.key_eq]
  constructor
  · exact List.forall₂_same.mpr fun push _ => ⟨rfl, .refl push.2⟩
  · cases (s.expand j).verdict with
    | none => exact .none
    | some _ => exact .some rfl

theorem lockstep_same (s : SearchSetting) : s.Lockstep s Item.Same Eq where
  keys first second := by rw [first.key_eq, second.key_eq]
  expand same := s.alike_expand_same same
  notFound := rfl

/-- Same items that are expanded in states abreast lead to states abreast. -/
theorem abreast_advance (same : i.Same j) (abreast : Abreast Item.Same st st')
    (others : List.Forall₂ Item.Same rest rest') :
    Abreast Item.Same (s.advance st i rest) (s.advance st' j rest') := by
  have begun : Frontier.Abreast Item.Same ⟨rest, i :: st.frontier.visited⟩
      ⟨rest', j :: st'.frontier.visited⟩ := ⟨others, .cons same abreast.frontier.visited⟩
  exact ⟨begun.foldl_enter (s.alike_expand_same same).entered,
    s.lockstep_same.count_eq abreast same⟩

/-! ## What is passed by -/

/-- An item of a key that was met would not end the search, and whatever it leads to was looked at
or is still in the queue. -/
theorem Swept.passed (swept : s.Swept start st) (queue : st.frontier.queue = item :: rest)
    (old : st.frontier.hasVisited item = true) :
    (s.expand item).verdict = none ∧ ∀ hop j, (hop, j) ∈ s.entered item →
      j.key ∈ st.frontier.visited.map Item.key ∨ j.key ∈ rest.map Item.key := by
  obtain ⟨w, near, sound, parted, isNear, rfl⟩ := swept.exists_near queue
  have visited : w.visited = st.frontier.visited := congrArg Frontier.visited parted
  have met : item.key ∈ w.visited.map Item.key := by
    rw [visited, ← st.frontier.hasVisited_iff, old]
  refine ⟨?_, fun hop j entered => ?_⟩
  · obtain ⟨v, hv, same⟩ := List.mem_map.mp met
    rw [← expand_eq_of_key_eq same]
    exact sound.goes v hv
  · have way := sound.near item (isNear ▸ List.mem_cons_self)
    -- the wave without the item still takes care of what the item leads to
    have covers := (sound.closed way met (leads_of_mem_pushes entered)).passBy isNear met
    rw [← visited, List.map_append, List.mem_append]
    rcases covers with looked | ⟨-, waits⟩ | ⟨-, waits⟩
    · exact .inl looked
    · exact .inr (.inl waits)
    · exact .inr (.inr waits)

/-! ## The key -/

/-- **An item stands for all items of its key.** Same items are expanded to the same events and the
same end, in their module or in any other: in states abreast they enter the same items at the same
ends of the queue and are counted alike. Searches from them count the same and have the same
outcome. And an item that a search passes by because it has met a same one would neither have ended
the search nor have led it anywhere else. -/
theorem expand_same (s : SearchSetting) (same : i.same j = true) :
    s.expand i = s.expand j ∧
    (∀ m, s.expandChunks m i.signal.chunks = s.expandChunks m j.signal.chunks) ∧
    (∀ st st' rest rest', Abreast Item.Same st st' → List.Forall₂ Item.Same rest rest' →
      Abreast Item.Same (s.advance st i rest) (s.advance st' j rest')) ∧
    ((s.search i).stats = (s.search j).stats ∧ (s.search i).outcome = (s.search j).outcome) ∧
    ∀ start st rest, s.Runs (.start start) st → i ∈ st.frontier.visited →
      st.frontier.queue = j :: rest → s.turn st = .goesOn (st.passBy rest) ∧
        (s.expand j).verdict = none ∧ ∀ hop k, (hop, k) ∈ s.entered j →
          k.key ∈ st.frontier.visited.map Item.key ∨ k.key ∈ rest.map Item.key := by
  have keys : i.key = j.key := (i.same_iff j).mp same
  refine ⟨expand_eq_of_key_eq keys, fun m => ?_, ?_, s.lockstep_same.search same, ?_⟩
  · exact expandChunks_eq_of_map_key_eq (Prod.mk.inj keys).2
  · exact fun st st' rest rest' abreast others => abreast_advance same abreast others
  · intro start st rest run met queue
    have old : st.frontier.hasVisited j = true := by
      rw [st.frontier.hasVisited_iff, ← keys]
      exact List.mem_map_of_mem met
    exact ⟨turn_of_visited queue old, run.swept.passed queue old⟩

/-- A module with a bus of four bits, which is a data input of a multiplexer, is inverted, and
drives another bus. -/
def tapped : SearchSetting where
  design :=
    let bus (name : String) : Signal := .ofWire ⟨name, 4, .declared "\\top"⟩
    let mux : Cell := ⟨"\\m0", "$mux",
      ⟨[⟨"A", bus "\\a"⟩, ⟨"S", .ofWire (.bit "\\s")⟩, ⟨"Y", bus "\\y"⟩], by decide⟩, ∅⟩
    let inverter : Cell := ⟨"\\n0", "$not", ⟨[⟨"A", bus "\\a"⟩, ⟨"Y", bus "\\z"⟩], by decide⟩, ∅⟩
    ⟨⟨[{ Module.new "\\top" with
      cells := ⟨[mux, inverter], by decide⟩
      connections := [⟨bus "\\b", bus "\\a"⟩] }], by decide⟩, none, .everything⟩
  index := ⟨⟨["\\top"], []⟩, ["\\top"], []⟩
  rule := .customary

/-- All of a bus of four bits. -/
def wholeBus : Item := ⟨"\\top", .ofWire ⟨"\\a", 4, .declared "\\top"⟩⟩

/-- Four bits of a bus of eight, which has the same name and is declared nowhere. -/
def slicedBus : Item :=
  ⟨"\\top", .ofChunks [.slice ⟨"\\a", 8, .detached 0⟩ 0 4 (by decide)]⟩

theorem expand_same_sliced : wholeBus.same slicedBus = true ∧
    wholeBus.signal.wholeWire?.isSome = true ∧ slicedBus.signal.wholeWire? = none ∧
    (tapped.entered slicedBus).map Prod.fst =
      [.mux, .cell "$mux", .cell "$not", .connection] ∧
    tapped.expand wholeBus = tapped.expand slicedBus ∧
    (tapped.search wholeBus).stats = (tapped.search slicedBus).stats := by
  have same : wholeBus.same slicedBus = true := by decide
  obtain ⟨expansions, -, -, ⟨stats, -⟩, -⟩ := expand_same tapped same
  exact ⟨same, rfl, rfl, by decide +kernel, expansions, stats⟩

end SearchSetting

end NearestMux
