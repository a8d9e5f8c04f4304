import NearestMux.Proofs.Search.Ending

/-!
# Wider rules — more multiplexers are found, and no later

A rule is within another one when its types of multiplexers are among those of the other, and its
reset token is a part of the token of the other. Then the other rule knows more multiplexers and
fewer resets. In a design whose modules are filed and without processes a search under the wider
rule finds something whenever a search under the narrower one does, and it comes to its last item by
no more costly hops (`SearchSetting.search_within`).

The two searches do not go side by side. What is passed through under the one rule ends the search
under the other, and a multiplexer is pushed through twice where it was pushed through once. So ways
are compared instead. A way under the narrower rule is a way under the wider one, unless it passes
through a select that is a reset for the former and genuine for the latter; but at that item the
wider search stops, and up to there the way costs no more (`Path.under_or_stops`).
-/

namespace NearestMux

namespace MuxRule

variable {rule rule' : MuxRule} {c : Cell}

/-- The types of one rule are among those of the other, and its reset token is a part of the other's
token. -/
structure Within (rule rule' : MuxRule) : Prop where
  types : ∀ type ∈ rule.types, type ∈ rule'.types
  token : rule.resetToken.toList <:+: rule'.resetToken.toList

theorem Within.isMux (within : rule.Within rule') (isMux : rule.isMux c = true) :
    rule'.isMux c = true := by
  simp only [MuxRule.isMux, Bool.and_eq_true, List.contains_iff_mem] at isMux ⊢
  obtain ⟨⟨⟨type, select⟩, output⟩, data⟩ := isMux
  exact ⟨⟨⟨within.types c.type type, select⟩, output⟩, data⟩

/-- A name without the shorter token is without the longer one. -/
theorem Within.not_isInfix (within : rule.Within rule') {name : String}
    (genuine : ¬ rule.resetToken.toList <:+: name.toList) :
    ¬ rule'.resetToken.toList <:+: name.toList := by
  intro occurs
  exact genuine (within.token.trans occurs)

end MuxRule

namespace SearchSetting

variable {s : SearchSetting} {rule : MuxRule} {start i j : Item} {m : Module} {w : String}
  {hop : Hop} {k : Nat}

/-- The setting under another rule. -/
def under (s : SearchSetting) (rule : MuxRule) : SearchSetting := { s with rule := rule }

@[simp] theorem design_under (s : SearchSetting) : (s.under rule).design = s.design := rfl

theorem Selects.under (within : s.rule.Within rule) {c : Cell} {select : Wire}
    (selects : s.Selects m c select) : (s.under rule).Selects m c select where
  selected := selects.selected
  isMux := within.isMux selects.isMux
  reads := selects.reads
  whole := selects.whole
  genuine := within.not_isInfix selects.genuine

/-- Where a search stops it stops under a wider rule. -/
theorem Stops.under (within : s.rule.Within rule) (stops : s.Stops i) : (s.under rule).Stops i := by
  rcases stops with ⟨m, select, found, named, c, selects⟩ | unresolved
  · exact Or.inl ⟨m, select, found, named, c, selects.under within⟩
  · exact Or.inr unresolved

/-- A way on is a way on under a wider rule, or a search under that rule stops where it sets out. -/
theorem Leads.under_or_stops (within : s.rule.Within rule) (leads : s.Leads i hop j) :
    (s.under rule).Leads i hop j ∨ (s.under rule).Stops i := by
  obtain ⟨m, w, found, hw, leads⟩ := leads
  cases leads with
  | @mux c b selected isMux bound whole reads passes =>
    have isMux := within.isMux isMux
    by_cases ends : b.port = selectPort ∧ rule.selectKind c = .genuine
    · -- a reset for the narrower rule alone: its wire is a hit for the wider one
      obtain ⟨wire, hwire, rfl⟩ := List.mem_map.mp hw
      have reader : (c, b) ∈ (s.under rule).readers m wire (s.under rule).rule.isMux :=
        mem_readers.mpr ⟨⟨⟨selected, isMux⟩, bound, whole⟩, reads⟩
      obtain ⟨select, selects, named, -⟩ := selects_of_reader reader (isGenuineSelect_iff.mpr ends)
      exact Or.inr (Or.inl ⟨m, select, found, named ▸ hw, c, selects⟩)
    · refine Or.inl ⟨m, w, found, hw, .mux selected isMux bound whole reads fun port => ?_⟩
      change rule.selectKind c = .reset
      cases kind : rule.selectKind c with
      | reset => rfl
      | genuine => exact absurd ⟨port, kind⟩ ends
  | cell selected primitive bound whole reads output drives hasBits =>
    exact Or.inl ⟨m, w, found, hw,
      .cell selected primitive bound whole reads output drives hasBits⟩
  | connection made whole => exact Or.inl ⟨m, w, found, hw, .connection made whole⟩
  | submodule selected instantiates bound whole enters declared =>
    exact Or.inl ⟨m, w, found, hw,
      .submodule selected instantiates bound whole enters declared⟩
  | parent declared isOutput standsIn selected instantiates bound atPort hasBits =>
    exact Or.inl ⟨m, w, found, hw,
      .parent declared isOutput standsIn selected instantiates bound atPort hasBits⟩

/-- A way is a way under a wider rule, or a search under that rule stops somewhere on it. -/
theorem Path.under_or_stops (within : s.rule.Within rule) (way : s.Path start k i) :
    (s.under rule).Path start k i ∨ ∃ cost ∈ (s.under rule).stopCosts start, cost ≤ k := by
  induction way with
  | nil => exact Or.inl .nil
  | @snoc cost i j hop way leads ih =>
    rcases ih with along | ⟨n, stops, le⟩
    · rcases leads.under_or_stops within with leads | stops
      · exact Or.inl (along.snoc leads)
      · exact Or.inr ⟨cost, ⟨i, along, stops⟩, Nat.le_add_right _ _⟩
    · exact Or.inr ⟨n, stops, Nat.le_add_right_of_le le⟩

/-- **A wider rule finds no less and no later.** Let no module of a design have processes, and let
each be filed under a marked name, as every module is that was added to a design or read from a
document (`Design.Lowered`). Let a search find a multiplexer there. Under a rule with more types of
multiplexers, and with a longer reset token around the first one, the search from the same start
finds one too, and the cheapest way to the item at which it ends costs no more than the cheapest way
to the item at which the first search ends. -/
theorem search_within {d : Design} (lowered : d.Lowered) (index : HierarchyIndex)
    {rule rule' : MuxRule} (within : rule.Within rule') {m : Module} (hm : m ∈ d.modules.toList)
    (g : Signal)
    (found : ∃ a, (SearchSetting.search ⟨d, index, rule⟩ ⟨m.name, g⟩).outcome = .ok a ∧
      a.isFound = true) :
    ∃ n n', FindsAt ⟨d, index, rule⟩ ⟨m.name, g⟩ n ∧
      FindsAt ⟨d, index, rule'⟩ ⟨m.name, g⟩ n' ∧ n' ≤ n := by
  let narrow : SearchSetting := ⟨d, index, rule⟩
  let wide : SearchSetting := ⟨d, index, rule'⟩
  obtain ⟨a, answered, isFound⟩ := found
  rcases notFound_or_findsAt (s := narrow) lowered hm g with ⟨none, -⟩ | ⟨n, finds⟩
  · rw [answered] at none
    rw [Except.ok.inj none] at isFound
    cases isFound
  · obtain ⟨⟨i, way, stops⟩, -⟩ := (findsAt_iff lowered hm g).mp finds
    have reached : ∃ cost ∈ wide.stopCosts ⟨m.name, g⟩, cost ≤ n := by
      rcases way.under_or_stops within with along | earlier
      · exact ⟨n, ⟨i, along, stops.under within⟩, Nat.le_refl n⟩
      · exact earlier
    obtain ⟨cost, ⟨j, along, stopsThere⟩, le⟩ := reached
    rcases notFound_or_findsAt (s := wide) lowered hm g with ⟨-, nowhere⟩ | ⟨n', finds'⟩
    · exact absurd stopsThere (nowhere j ⟨cost, along⟩)
    · have least := (findsAt_iff lowered hm g).mp finds'
      exact ⟨n, n', finds, finds', (least.2 ⟨j, along, stopsThere⟩).trans le⟩

/-- A module with two multiplexers: the output of the first is the select of the second, and the
name of the first select sounds like a reset. -/
def chained : Module where
  name := "\\top"
  wires := ⟨["\\rst_mode", "\\a", "\\y", "\\z"].map fun name => ⟨.bit name, none, []⟩, by decide⟩
  cells := ⟨[{
    name := "\\m0"
    type := "$mux"
    bindings := ⟨[⟨"A", .ofWire (.bit "\\a")⟩, ⟨"S", .ofWire (.bit "\\rst_mode")⟩,
      ⟨"Y", .ofWire (.bit "\\y")⟩], by decide⟩
    notes := ∅ }, {
    name := "\\m1"
    type := "$mux"
    bindings := ⟨[⟨"A", .ofWire (.bit "\\a")⟩, ⟨"S", .ofWire (.bit "\\y")⟩,
      ⟨"Y", .ofWire (.bit "\\z")⟩], by decide⟩
    notes := ∅ }], by decide⟩
  connections := []
  processes := []

/-- The module alone. -/
def chainedDesign : Design := ⟨⟨[chained], by decide⟩, none, .everything⟩

/-- The customary rule with a shorter token. -/
def cautiousRule : MuxRule := ⟨MuxRule.customaryTypes, "rst"⟩

theorem search_within_chained : chainedDesign.Lowered ∧ cautiousRule.Within .customary ∧
    chained ∈ chainedDesign.modules.toList ∧
    let index : HierarchyIndex := ⟨.empty, ["\\top"], []⟩
    let start : Item := ⟨chained.name, .ofWire (.bit "\\rst_mode")⟩
    (SearchSetting.search ⟨chainedDesign, index, cautiousRule⟩ start).outcome =
        .ok ⟨"\\y", "\\top"⟩ ∧
      (SearchSetting.search ⟨chainedDesign, index, .customary⟩ start).outcome =
        .ok ⟨"\\rst_mode", "\\top"⟩ ∧
      ∃ n n', FindsAt ⟨chainedDesign, index, cautiousRule⟩ start n ∧
        FindsAt ⟨chainedDesign, index, .customary⟩ start n' ∧ n' ≤ n := by
  have lowered : chainedDesign.Lowered := by
    constructor
    · intro m hm
      rw [List.mem_singleton.mp hm]
      exact ⟨"top", rfl⟩
    · intro m hm
      rw [List.mem_singleton.mp hm]
      rfl
  have within : cautiousRule.Within .customary := ⟨fun _ known => known, by decide⟩
  have hm : chained ∈ chainedDesign.modules.toList := List.mem_singleton_self _
  refine ⟨lowered, within, hm, ?_⟩
  intro index start
  have answer : (SearchSetting.search ⟨chainedDesign, index, cautiousRule⟩ start).outcome =
      .ok ⟨"\\y", "\\top"⟩ := by
    decide +kernel
  refine ⟨answer, by decide +kernel, ?_⟩
  exact search_within lowered index within hm _ ⟨⟨"\\y", "\\top"⟩, answer, by decide⟩

end SearchSetting

end NearestMux
