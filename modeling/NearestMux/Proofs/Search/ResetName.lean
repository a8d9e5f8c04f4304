import NearestMux.Proofs.Netlist.Aliases
import NearestMux.Proofs.Search.Distance

/-!
# Reset names — what an answer may show

Two names meet in an answer. Whether a select is genuine is read off the name of the wire at the
select port. What the answer shows is the name that a connection lends to that wire, if one does
(`Module.shownName`). The first name is free of the reset token, and nobody asks that of the second.

`search_resetFree_iff` says when it comes to the same: answers are free of the token just when no
genuine select is lent a name that holds it. A select that is tied to a reset by a connection is the
other case (`search_reset_tied`).
-/

namespace NearestMux

/-- A name that a connection lends is public. -/
theorem Connection.isPublic_of_alias? {k : Connection} {wire lent : String}
    (h : k.alias? wire = some lent) : Identifier.isPublic lent = true :=
  (alias?_eq_some_iff.mp h).isPublic

theorem SearchAnswer.isFound_of_isPublic {a : SearchAnswer}
    (h : Identifier.isPublic a.select = true) : a.isFound = true := by
  apply isFound_of_ne
  rintro rfl
  exact absurd h (by decide)

namespace SearchSetting

variable {s : SearchSetting} {m : Module} {c : Cell} {select : Wire}

/-- A search from the select of a multiplexer is answered with it. -/
theorem Selects.search (selects : s.Selects m c select) (hm : m ∈ s.design.modules.toList)
    (lowered : m.processes = []) :
    (s.search ⟨m.name, c.signal selectPort⟩).outcome =
      .ok ⟨m.shownName select.name, m.name⟩ := by
  have found : s.design.module? m.name = some m := s.design.module?_eq_some_iff.mpr ⟨hm, rfl⟩
  have wires : (c.signal selectPort).chunks.filterMap Chunk.wire? = [select] :=
    Signal.wires_of_wholeWire? selects.whole
  obtain ⟨v, verdict⟩ := Option.ne_none_iff_exists'.mp (selects.expandWire_verdict_ne_none rfl)
  obtain ⟨_, other, -, named, rfl⟩ := selects_of_expandWire_verdict verdict
  apply search_of_verdict
  rw [expand, found]
  simp only [lowered, List.isEmpty_nil, ↓reduceIte]
  rw [verdict_expandChunks, wires, List.findSome?_cons, verdict, named]

/-- **Reset names.** The answers of all searches from the modules of the design are free of the
reset token just when no connection lends a genuine select a name in which the token occurs. -/
theorem search_resetFree_iff (s : SearchSetting) :
    (∀ m ∈ s.design.modules.toList, ∀ g a, (s.search ⟨m.name, g⟩).outcome = .ok a →
        a.isFound = true → ¬ s.rule.resetToken.toList <:+: a.select.toList) ↔
      ∀ m ∈ s.design.modules.toList, m.processes = [] → ∀ c select, s.Selects m c select →
        ∀ lent, (m.connections.findSome? fun k => k.alias? select.name) = some lent →
          ¬ s.rule.resetToken.toList <:+: lent.toList := by
  constructor
  · -- a search from the select itself shows the name that is lent
    intro free m hm lowered c select selects lent lends
    have shown : m.shownName select.name = lent := by rw [Module.shownName, lends, Option.getD_some]
    obtain ⟨k, -, byConnection⟩ := List.exists_of_findSome?_eq_some lends
    have answered := selects.search hm lowered
    rw [shown] at answered
    exact free m hm _ _ answered
      (SearchAnswer.isFound_of_isPublic (Connection.isPublic_of_alias? byConnection))
  · intro free m hm g a answered found
    rcases s.search_cases ⟨m.name, g⟩ with ⟨none, -⟩ | ⟨_, i, _, verdict, -⟩
    · rw [answered] at none
      rw [Except.ok.inj none] at found
      cases found
    · rw [answered] at verdict
      obtain ⟨inner, select, ⟨there, -, c, selects⟩, lowered, rfl⟩ := hit_of_expand_verdict verdict
      have hinner := (s.design.module?_eq_some_iff.mp there).1
      cases lends : inner.connections.findSome? fun k => k.alias? select.name with
      | none =>
        rw [Module.shownName, lends]
        exact selects.genuine
      | some lent =>
        rw [Module.shownName, lends]
        exact free inner hinner lowered c select selects lent lends

/-- The select `$s` is genuine by its name, and the answer shows the reset that it is tied to. -/
theorem search_reset_tied :
    ¬ ∀ (s : SearchSetting), ∀ m ∈ s.design.modules.toList, ∀ g a,
      (s.search ⟨m.name, g⟩).outcome = .ok a → a.isFound = true →
        ¬ s.rule.resetToken.toList <:+: a.select.toList := by
  intro free
  exact free .tied .tied (List.mem_singleton_self _) (.ofWire (.bit "\\rstz"))
    ⟨"\\rstz", "\\top"⟩ rfl rfl (by decide)

end SearchSetting

end NearestMux
