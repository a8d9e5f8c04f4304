import NearestMux.Proofs.Search.Containment

/-!
# Crossings — the ports through which a search enters and leaves a module

Two kinds of hops lead from one module to another: down into an instance, and out to the parent.
This module says which wires they go through, hop by hop, in every search.

* A hop out leaves an output port and lands on what a selected instance in the recorded parent binds
  to that port, which is not empty (`SearchSetting.Ascends`).
* A hop down goes from a wire that a selected instance binds as a whole to the wire of the module
  that has the name of the port (`SearchSetting.Descends`). That wire is no output.

What a hop down enters need not be a port at all. The search asks whether the instance drives the
port, and no instance drives a wire without a direction, so a wire inside the module is entered when
an instance binds something to its name. The hops down of all searches enter input ports if and only
if no selected instance does that (`SearchSetting.search_crosses`).

A search reports what was entered in the queue, but not from where. The hops are therefore told of
the states that its turns run through (`SearchSetting.Hops`), and every event of the report is one
of them (`SearchSetting.exists_hops_of_push`).
-/

namespace NearestMux

/-! ## Ports and wires without a direction -/

/-- No module that can be searched has a selected instance that binds a wire as a whole to a name
that its module has for a wire without a direction. -/
def Design.BindsPorts (d : Design) : Prop :=
  ∀ m ∈ d.modules.toList, m.processes = [] → ∀ c ∈ d.selectedCells m,
    ∀ inner ∈ d.instantiated? c, ∀ b ∈ c.bindings.toList, b.signal.wholeWire?.isSome →
      ∀ e ∈ inner.wire? (Identifier.escape b.port), e.role ≠ none

instance Design.decidableBindsPorts (d : Design) : Decidable d.BindsPorts :=
  inferInstanceAs (Decidable (∀ m ∈ d.modules.toList, m.processes = [] → ∀ c ∈ d.selectedCells m,
    ∀ inner ∈ d.instantiated? c, ∀ b ∈ c.bindings.toList, b.signal.wholeWire?.isSome →
      ∀ e ∈ inner.wire? (Identifier.escape b.port), e.role ≠ none))

/-- A port of an instance is driven just when its module declares it as an output. -/
theorem Design.drives_iff_output {d : Design} {c : Cell} {inner : Module} {port : String}
    {e : Declaration} (instantiates : d.instantiated? c = some inner)
    (declared : inner.wire? (Identifier.escape port) = some e) :
    d.drives c port = true ↔ e.role = some .output := by
  unfold drives direction?
  rw [instantiates]
  dsimp only
  rw [declared, Option.bind_some]
  cases e.role with
  | none => simp
  | some role => cases role <;> decide

namespace SearchSetting

variable {s : SearchSetting} {start i j : Item} {hop : Hop} {e : Declaration}

/-! ## Hops -/

/-- A search from an item comes to expand another one: it is next in the queue, and it was not
looked at before. -/
def Expands (s : SearchSetting) (start i : Item) : Prop :=
  ∃ st rest, s.Runs (.start start) st ∧ st.frontier.queue = i :: rest ∧
    st.frontier.hasVisited i = false

/-- In a search an item is expanded and enters another one in the queue. -/
structure Hops (s : SearchSetting) (start i : Item) (hop : Hop) (j : Item) : Prop where
  expands : s.Expands start i
  enters : (hop, j) ∈ s.entered i

/-- Down: a selected instance binds a wire of the item, as a whole, to a port that it does not
drive, and the wire of its module that has the name of the port is entered. -/
inductive Descends (s : SearchSetting) (i : Item) (e : Declaration) : Item → Prop where
  | mk {m inner : Module} {c : Cell} {b : Binding} (here : s.design.module? i.module = some m)
      (selected : c ∈ s.design.selectedCells m)
      (instantiates : s.design.instantiated? c = some inner) (bound : b ∈ c.bindings.toList)
      (whole : ∃ w ∈ i.wireNames, b.signal.isWhole w = true)
      (enters : s.design.drives c b.port = false)
      (declared : inner.wire? (Identifier.escape b.port) = some e) :
      Descends s i e ⟨inner.name, .ofWire e.toWire⟩

/-- Out: a wire of the item is an output port of its module, and a selected instance in the recorded
parent binds the port to something. -/
inductive Ascends (s : SearchSetting) (i : Item) : Item → Prop where
  | mk {m outer : Module} {e : Declaration} {c : Cell} {b : Binding}
      (here : s.design.module? i.module = some m) (leaves : e.name ∈ i.wireNames)
      (declared : m.wire? e.name = some e) (isOutput : e.role = some .output)
      (recorded : s.index.parent? m.name = some outer.name)
      (isModule : s.design.module? outer.name = some outer)
      (selected : c ∈ s.design.selectedCells outer) (instantiates : c.type = m.name)
      (bound : b ∈ c.bindings.toList) (atPort : Identifier.escape b.port = e.name)
      (hasBits : b.signal.isEmpty = false) :
      Ascends s i ⟨outer.name, b.signal⟩

/-- Whatever rounds report to be entered was entered by an item that was expanded. -/
theorem exists_hops_of_rounds {fuel : Nat} (st : SearchState) (run : s.Runs (.start start) st)
    (entered : (hop, j) ∈ pushes (s.rounds fuel st.frontier st.stats).events) :
    ∃ i, s.Hops start i hop j := by
  -- each round expands one item, and the next one begins where that left the queue
  induction fuel generalizing st with
  | zero =>
    rw [pushes_rounds_zero] at entered
    cases entered
  | succ fuel ih =>
    obtain ⟨item, rest, queue, entered⟩ := mem_pushes_rounds st entered
    have new := hasVisited_roundHead queue
    have atHead := run.trans (runs_roundHead s st)
    rcases entered with now | ⟨goes, later⟩
    · exact ⟨item, ⟨st.roundHead, rest, atHead, queue, new⟩, now⟩
    · exact ih _ (atHead.tail (turn_of_new queue new goes)) later

/-- Every event of a search that enters an item is a hop. -/
theorem exists_hops_of_push (entered : .push hop j ∈ (s.search start).events) :
    ∃ i, s.Hops start i hop j :=
  exists_hops_of_rounds (.start start) .refl (mem_pushes.mpr entered)

/-! ## What crossings go through -/

theorem exists_descends_of_hops (hops : s.Hops start i .submodule j) : ∃ e, s.Descends i e j := by
  obtain ⟨m, w, here, isName, leads⟩ := leads_of_mem_pushes hops.enters
  cases leads with
  | submodule selected instantiates bound whole enters declared =>
    exact ⟨_, .mk here selected instantiates bound ⟨w, isName, whole⟩ enters declared⟩

theorem Descends.role_ne_output (descends : s.Descends i e j) : e.role ≠ some .output := by
  cases descends with
  | mk _ _ instantiates _ _ enters declared =>
    intro isOutput
    rw [(Design.drives_iff_output instantiates declared).mpr isOutput] at enters
    cases enters

/-- Where instances bind ports only, what a hop down enters is an input. -/
theorem Descends.role_eq_input (descends : s.Descends i e j) (binds : s.design.BindsPorts)
    (lowered : ∀ m, s.design.module? i.module = some m → m.processes = []) :
    e.role = some .input := by
  have notOutput := descends.role_ne_output
  cases descends with
  | @mk m inner c b here selected instantiates bound whole enters declared =>
    obtain ⟨hm, -⟩ := s.design.module?_eq_some_iff.mp here
    obtain ⟨w, -, isWhole⟩ := whole
    obtain ⟨wire, whole, -⟩ := (Signal.isWhole_iff _ _).mp isWhole
    have isWire : b.signal.wholeWire?.isSome = true := by rw [whole]; rfl
    have hasRole :=
      binds m hm (lowered m here) c selected inner instantiates b bound isWire e declared
    cases role : e.role with
    | none => exact absurd role hasRole
    | some r =>
      cases r with
      | input => rfl
      | output => exact absurd role notOutput

/-- An item that enters another one is in a module without processes. -/
theorem processes_eq_nil_of_mem_entered (enters : (hop, j) ∈ s.entered i) {m : Module}
    (here : s.design.module? i.module = some m) : m.processes = [] := by
  by_contra unresolved
  have isBusy : m.processes.isEmpty = false := List.isEmpty_eq_false_iff.mpr unresolved
  unfold entered expand at enters
  rw [here] at enters
  simp [isBusy, pushes] at enters

theorem ascends_of_hops (hops : s.Hops start i .parent j) : s.Ascends i j := by
  obtain ⟨m, w, here, isName, leads⟩ := leads_of_mem_pushes hops.enters
  cases leads with
  | @parent e outer c b declared isOutput standsIn selected instantiates bound atPort hasBits =>
    obtain ⟨name, recorded, isModule⟩ := Option.bind_eq_some_iff.mp standsIn
    obtain ⟨-, rfl⟩ := s.design.module?_eq_some_iff.mp isModule
    obtain ⟨-, rfl⟩ := Module.wire?_eq_some_iff.mp declared
    exact .mk here isName declared (by simpa [Declaration.isOutput] using isOutput) recorded
      isModule selected instantiates bound atPort hasBits

/-- Without multiplexers every expansion in a module without processes goes on. -/
theorem expand_verdict_of_types_nil (types : s.rule.types = []) {m : Module}
    (here : s.design.module? i.module = some m) (lowered : m.processes = []) :
    (s.expand i).verdict = none := by
  cases verdict : (s.expand i).verdict with
  | none => rfl
  | some outcome =>
    cases outcome with
    | ok a =>
      obtain ⟨_, _, ⟨-, -, c, selects⟩, -⟩ := hit_of_expand_verdict verdict
      have isMux := selects.isMux
      simp [MuxRule.isMux, types] at isMux
    | error fault =>
      rcases fault_of_expand_verdict verdict with missing | ⟨m', ⟨here', unresolved⟩, -⟩
      · rw [here] at missing
        cases missing
      · rw [here] at here'
        cases here'
        exact absurd lowered unresolved

/-- If the hops down of all searches enter inputs, instances bind ports only: a search from what an
instance binds goes into the instance at once. -/
theorem bindsPorts_of_descends {d : Design} {index : HierarchyIndex}
    (inputs : ∀ (rule : MuxRule) (start i j : Item) (e : Declaration),
      let s : SearchSetting := ⟨d, index, rule⟩
      s.Hops start i .submodule j → s.Descends i e j → e.role = some .input) :
    d.BindsPorts := by
  intro m hm lowered c selected inner instantiates b bound isWire e declared noRole
  -- a rule that knows no multiplexers, so that nothing ends the search at its start
  let s : SearchSetting := ⟨d, index, ⟨[], ""⟩⟩
  let start : Item := ⟨m.name, b.signal⟩
  have here : s.design.module? start.module = some m := d.module?_eq_some_iff.mpr ⟨hm, rfl⟩
  obtain ⟨wire, whole⟩ := Option.isSome_iff_exists.mp isWire
  have isName : wire.name ∈ start.wireNames := by
    show wire.name ∈ b.signal.wires.map Wire.name
    rw [Signal.wires_of_wholeWire? whole]
    exact List.mem_singleton_self _
  have isWhole : b.signal.isWhole wire.name = true :=
    (Signal.isWhole_iff _ _).mpr ⟨wire, whole, rfl⟩
  have enters : s.design.drives c b.port = false := by
    rw [Bool.eq_false_iff, ne_eq, Design.drives_iff_output instantiates declared, noRole]
    exact nofun
  have goes : (s.expand start).verdict = none := expand_verdict_of_types_nil rfl here lowered
  have leads : s.Leads start .submodule ⟨inner.name, .ofWire e.toWire⟩ :=
    ⟨m, wire.name, here, isName, .submodule selected instantiates bound isWhole enters declared⟩
  have hops : s.Hops start start .submodule ⟨inner.name, .ofWire e.toWire⟩ :=
    ⟨⟨.start start, [], .refl, rfl, rfl⟩, (mem_pushes_expand_iff goes).mpr leads⟩
  have isInput := inputs s.rule start start _ e hops
    (.mk here selected instantiates bound ⟨wire.name, isName, isWhole⟩ enters declared)
  rw [noRole] at isInput
  cases isInput

/-- **Crossings.** Whatever a search reports to be entered is entered by a hop. A hop down goes into
a wire of an instantiated module, at a selected instance that binds a wire of the item it comes
from, and that wire is no output. A hop out leaves an output port and lands on what a selected
instance in the recorded parent binds to it, which is not empty. The wires that hops down go into
are input ports, in all searches of the design, if and only if no selected instance in a module
without processes binds a wire as a whole to the name of a wire without a direction. -/
theorem search_crosses (d : Design) (index : HierarchyIndex) :
    (∀ (rule : MuxRule) (start : Item), let s : SearchSetting := ⟨d, index, rule⟩
      (∀ hop j, .push hop j ∈ (s.search start).events → ∃ i, s.Hops start i hop j) ∧
      (∀ i j, s.Hops start i .submodule j →
        (∃ e, s.Descends i e j) ∧ ∀ e, s.Descends i e j → e.role ≠ some .output) ∧
      ∀ i j, s.Hops start i .parent j → s.Ascends i j) ∧
    ((∀ (rule : MuxRule) (start i j : Item) (e : Declaration),
      let s : SearchSetting := ⟨d, index, rule⟩
      s.Hops start i .submodule j → s.Descends i e j → e.role = some .input) ↔ d.BindsPorts) := by
  constructor
  · intro rule start s
    refine ⟨fun hop j entered => exists_hops_of_push entered, fun i j hops => ?_,
      fun i j hops => ?_⟩
    · exact ⟨exists_descends_of_hops hops, fun e descends => descends.role_ne_output⟩
    · exact ascends_of_hops hops
  · constructor
    · exact bindsPorts_of_descends
    · intro binds rule start i j e s hops descends
      exact descends.role_eq_input binds fun m here =>
        processes_eq_nil_of_mem_entered hops.enters here

/-- A document in which `top` has an instance of `leaf` that binds its wire to `c`, which `leaf`
has for a wire inside it, the select of a multiplexer. -/
def tappedDocument : Value :=
  .map [(.text "modules", .map [
    (.text "top", .map [
      (.text "wires", .map [(.text "x", .null)]),
      (.text "cells", .map [(.text "u", .map [(.text "type", .text "leaf"),
        (.text "connections", .map [(.text "c", .text "x")])])])]),
    (.text "leaf", .map [
      (.text "wires", .map [(.text "a", .null), (.text "b", .null), (.text "c", .null),
        (.text "y", .null)]),
      (.text "cells", .map [(.text "m0", .map [(.text "type", .text "$mux"),
        (.text "connections", .map [(.text "A", .text "a"), (.text "B", .text "b"),
          (.text "S", .text "c"), (.text "Y", .text "y")])])])])])]

/-- A search from the wire of `top` answers with the wire inside `leaf`. -/
theorem search_enters_tapped :
    (∃ d index, Document.design tappedDocument .null = .ok d ∧ d.index = .ok index ∧
      (SearchSetting.search ⟨d, index, .customary⟩
        ⟨"\\top", .ofWire ⟨"\\x", 1, .declared "\\top"⟩⟩).outcome = .ok ⟨"\\c", "\\leaf"⟩) ∧
    ¬ ∀ (doc asked : Value) (d : Design), Document.design doc asked = .ok d →
      ∀ index, d.index = .ok index →
        ∀ (rule : MuxRule) (start i j : Item) (e : Declaration),
          let s : SearchSetting := ⟨d, index, rule⟩
          s.Hops start i .submodule j → s.Descends i e j → e.role = some .input := by
  have search : (Document.design tappedDocument .null).toOption.bind (fun d =>
      d.index.toOption.map fun index => (decide d.BindsPorts,
        (SearchSetting.search ⟨d, index, .customary⟩
          ⟨"\\top", .ofWire ⟨"\\x", 1, .declared "\\top"⟩⟩).outcome)) =
      some (false, .ok ⟨"\\c", "\\leaf"⟩) := by
    decide +kernel
  cases accepted : Document.design tappedDocument .null with
  | error _ =>
    rw [accepted] at search
    cases search
  | ok d =>
    rw [accepted] at search
    change d.index.toOption.map _ = _ at search
    cases built : d.index with
    | error _ =>
      rw [built] at search
      cases search
    | ok index =>
      rw [built] at search
      obtain ⟨unbound, answer⟩ := Prod.mk.inj (Option.some.inj search)
      refine ⟨⟨d, index, rfl, built, answer⟩, fun inputs => ?_⟩
      have binds := bindsPorts_of_descends (inputs _ _ d accepted index built)
      exact of_decide_eq_false unbound binds

end SearchSetting

end NearestMux
