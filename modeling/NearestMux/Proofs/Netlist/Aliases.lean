import NearestMux.Alias

/-!
# Aliases — the first connection that lends a name

Where a name for a wire is looked for, the source of a connection is asked first, and its target
only if the source is not the wire. Here the rule is said without sides. A connection joins two
wires when they are its sides, each of them whole, in whichever order (`Connection.Joins`); it lends
a wire the name of a public one that it joins with it (`Connection.Lends`).

Asking one side alone leaves nothing out (`Connection.alias?_eq_some_iff`). The one connection in
which both sides would have to be asked has the wire itself on both, and it lends the wire its own
name from either side, or from none.

`Module.shownName_lent` is the rule for a module: the first connection that lends a name decides,
and without one the wire keeps its own. So the name that is shown is public whenever the wire or
something it is joined with is.
-/

namespace NearestMux

/-- A signal is all of one wire at most. -/
theorem Signal.eq_of_isWhole {s : Signal} {wire other : String} (h : s.isWhole wire = true)
    (h' : s.isWhole other = true) : wire = other := by
  obtain ⟨w, whole, rfl⟩ := (s.isWhole_iff wire).mp h
  obtain ⟨w', whole', rfl⟩ := (s.isWhole_iff other).mp h'
  rw [whole] at whole'
  rw [Option.some.inj whole']

namespace Connection

variable {k : Connection} {wire other lent : String}

/-- The sides of a connection are these two wires, each of them whole. Which of the two is the
source is not asked. -/
def Joins (k : Connection) (wire other : String) : Prop :=
  k.source.isWhole wire = true ∧ k.target.isWhole other = true ∨
    k.target.isWhole wire = true ∧ k.source.isWhole other = true

/-- A connection joins a wire with a public one, whose name it lends. -/
structure Lends (k : Connection) (wire lent : String) : Prop where
  joins : k.Joins wire lent
  isPublic : Identifier.isPublic lent = true

/-- A side lends a name when it is all of a public wire. -/
theorem publicName?_eq_some_iff {side : Signal} :
    publicName? side = some lent ↔ side.isWhole lent = true ∧ Identifier.isPublic lent = true := by
  rw [publicName?, Option.filter_eq_some_iff, Option.map_eq_some_iff, Signal.isWhole_iff]

/-- Asking the source first and the target only if the source is not the wire finds the name that a
connection lends. -/
theorem alias?_eq_some_iff : k.alias? wire = some lent ↔ k.Lends wire lent := by
  unfold alias?
  split
  · next source =>
    rw [publicName?_eq_some_iff]
    constructor
    · rintro ⟨target, isPublic⟩
      exact ⟨.inl ⟨source, target⟩, isPublic⟩
    · rintro ⟨⟨-, target⟩ | ⟨target, sourceToo⟩, isPublic⟩
      · exact ⟨target, isPublic⟩
      · -- the source is both wires, so they are one
        exact ⟨Signal.eq_of_isWhole source sourceToo ▸ target, isPublic⟩
  · next notSource =>
    split
    · next target =>
      rw [publicName?_eq_some_iff]
      constructor
      · rintro ⟨source, isPublic⟩
        exact ⟨.inr ⟨target, source⟩, isPublic⟩
      · rintro ⟨⟨source, -⟩ | ⟨-, source⟩, isPublic⟩
        · exact absurd source notSource
        · exact ⟨source, isPublic⟩
    · next notTarget =>
      refine ⟨nofun, ?_⟩
      rintro ⟨⟨source, -⟩ | ⟨target, -⟩, -⟩
      · exact absurd source notSource
      · exact absurd target notTarget

/-- A connection without an alias lends nothing. -/
theorem alias?_eq_none_iff : k.alias? wire = none ↔ ∀ lent, ¬ k.Lends wire lent := by
  simp only [Option.eq_none_iff_forall_ne_some, ne_eq, alias?_eq_some_iff]

end Connection

namespace Module

variable {m : Module} {wire name lent : String}

/-- The first connection that lends the wire a name lends it this one. -/
def FirstLends (m : Module) (wire lent : String) : Prop :=
  ∃ before k behind, m.connections = before ++ k :: behind ∧ k.Lends wire lent ∧
    ∀ j ∈ before, ∀ other, ¬ j.Lends wire other

/-- No connection lends the wire a name. -/
def NoneLends (m : Module) (wire : String) : Prop :=
  ∀ k ∈ m.connections, ∀ lent, ¬ k.Lends wire lent

/-- The alias that is found first is lent by the first connection that lends one. -/
theorem findSome?_alias?_eq_some_iff :
    (m.connections.findSome? fun k => k.alias? wire) = some lent ↔ m.FirstLends wire lent := by
  simp only [List.findSome?_eq_some_iff, Connection.alias?_eq_some_iff,
    Connection.alias?_eq_none_iff, FirstLends]

theorem findSome?_alias?_eq_none_iff :
    (m.connections.findSome? fun k => k.alias? wire) = none ↔ m.NoneLends wire := by
  simp only [List.findSome?_eq_none_iff, Connection.alias?_eq_none_iff, NoneLends]

/-- A wire is shown under the name that is lent first. -/
theorem shownName_of_firstLends (lends : m.FirstLends wire lent) : m.shownName wire = lent := by
  rw [shownName, findSome?_alias?_eq_some_iff.mpr lends, Option.getD_some]

/-- A wire that nothing lends a name to is shown under its own. -/
theorem shownName_of_noneLends (none : m.NoneLends wire) : m.shownName wire = wire := by
  rw [shownName, findSome?_alias?_eq_none_iff.mpr none, Option.getD_none]

/-- One of the two is the case. -/
theorem firstLends_or_noneLends (m : Module) (wire : String) :
    (∃ lent, m.FirstLends wire lent) ∨ m.NoneLends wire := by
  cases lends : m.connections.findSome? fun k => k.alias? wire with
  | none => exact .inr (findSome?_alias?_eq_none_iff.mp lends)
  | some lent => exact .inl ⟨lent, findSome?_alias?_eq_some_iff.mp lends⟩

theorem FirstLends.isPublic (lends : m.FirstLends wire lent) : Identifier.isPublic lent = true := by
  obtain ⟨_, _, _, -, lends, -⟩ := lends
  exact lends.isPublic

/-- **The name to show.** A name is shown for a wire just when the first connection that lends the
wire a name lends it this one, or when no connection lends it any and the name is its own. It fails
to be public just when the wire is not public and no connection joins it with a public one. -/
theorem shownName_lent (m : Module) (wire : String) :
    (∀ name, m.shownName wire = name ↔
      m.FirstLends wire name ∨ m.NoneLends wire ∧ name = wire) ∧
    (Identifier.isPublic (m.shownName wire) = false ↔ Identifier.isPublic wire = false ∧
      ∀ k ∈ m.connections, ∀ other, k.Joins wire other → Identifier.isPublic other = false) := by
  refine ⟨fun name => ⟨?_, ?_⟩, ?_, ?_⟩
  · rintro rfl
    rcases m.firstLends_or_noneLends wire with ⟨lent, lends⟩ | none
    · rw [shownName_of_firstLends lends]
      exact .inl lends
    · exact .inr ⟨none, shownName_of_noneLends none⟩
  · rintro (lends | ⟨none, rfl⟩)
    · exact shownName_of_firstLends lends
    · exact shownName_of_noneLends none
  · intro hidden
    rcases m.firstLends_or_noneLends wire with ⟨lent, lends⟩ | none
    · rw [shownName_of_firstLends lends, lends.isPublic] at hidden
      cases hidden
    · rw [shownName_of_noneLends none] at hidden
      refine ⟨hidden, fun k hk other joins => ?_⟩
      cases isPublic : Identifier.isPublic other with
      | false => rfl
      | true => exact absurd ⟨joins, isPublic⟩ (none k hk other)
  · rintro ⟨hidden, joined⟩
    have none : m.NoneLends wire := by
      rintro k hk lent ⟨joins, isPublic⟩
      rw [joined k hk lent joins] at isPublic
      cases isPublic
    rw [shownName_of_noneLends none]
    exact hidden

/-- A module in which `$s` is tied to itself, then to a part of `\bus`, then to the wires `\sel` and
`\late`, once as the source and once as the target. -/
def manyTies : Module where
  name := "\\top"
  wires := ∅
  cells := ∅
  connections :=
    let whole (name : String) : Signal := .ofWire ⟨name, 1, .declared "\\top"⟩
    [⟨whole "$s", whole "$s"⟩,
      ⟨.ofChunks [.slice ⟨"\\bus", 2, .declared "\\top"⟩ 0 1 (by decide)], whole "$s"⟩,
      ⟨whole "$s", whole "\\sel"⟩, ⟨whole "\\late", whole "$s"⟩]
  processes := []

theorem shownName_lent_manyTies : manyTies.shownName "$s" = "\\sel" ∧
    manyTies.FirstLends "$s" "\\sel" := by
  have shown : manyTies.shownName "$s" = "\\sel" := by decide +kernel
  refine ⟨shown, (((shownName_lent manyTies "$s").1 "\\sel").mp shown).resolve_right ?_⟩
  rintro ⟨-, other⟩
  exact absurd other (by decide)

end Module

end NearestMux
