import Mathlib.Data.List.Basic
import NearestMux.Netlist.Design
import NearestMux.Proofs.Text.Digits

/-!
# Patterns — what they select

Patterns are worked off one after the other, each of them module by module, and what they select is
entered in two tables: the modules that are selected whole, and the members of the others. Here the
same is said without tables and without an order. A pattern is parted at its first slash
(`Selection.Parted`). It picks a module when its first part accepts the name of the module and its
second part is empty or accepts the name of some cell or wire (`Selection.PicksModule`); it picks a
cell when the second part is empty or accepts the name of that cell (`Selection.PicksMember`).

`Design.select_picks` is the agreement: what is selected is what some pattern picks. That the order
of the patterns does not matter, and that more of them never select less, are read off it. The row
without patterns is no case of it, since it selects everything.

The tables are looked at entry by entry (`Selection.Entry`). One step adds entries and takes none
away (`Selection.holds_addPatternIn`), so a run holds what one of its steps enters (`foldl_iff`).
-/

namespace NearestMux

/-- Where each step of a run adds to what holds, and takes nothing away, that holds in the end which
held before or was added by some step. -/
theorem foldl_iff {σ α : Type} {step : σ → α → σ} {P : σ → Prop} {Q : α → Prop}
    (one : ∀ s a, P (step s a) ↔ P s ∨ Q a) (s : σ) (as : List α) :
    P (as.foldl step s) ↔ P s ∨ ∃ a ∈ as, Q a := by
  induction as generalizing s with
  | nil => simp
  | cons a rest ih => rw [List.foldl_cons, ih, one, List.exists_mem_cons_iff, or_assoc]

namespace Selection

variable {s t : Selection} {pattern modulePart memberPart module member : String}
  {names patterns : List String} {table : List (String × List String)} {e : String × List String}

/-! ## The two parts of a pattern -/

/-- A pattern is parted at its first slash into a part for modules and a part for members. Without a
slash all of it is for modules. -/
def Parted (pattern modulePart memberPart : String) : Prop :=
  '/' ∉ modulePart.toList ∧
    (pattern.toList = modulePart.toList ++ '/' :: memberPart.toList ∨
      pattern = modulePart ∧ memberPart = "")

/-- A pattern is split at its first slash, and one without a slash is all module part. -/
theorem splitPattern_of_append {rest : List Char} (noSlash : '/' ∉ modulePart.toList)
    (parts : pattern.toList = modulePart.toList ++ rest) (ends : ∀ c ∈ rest.head?, c = '/') :
    splitPattern pattern = (modulePart, String.ofList (rest.drop 1)) := by
  have all : ∀ c ∈ modulePart.toList, decide (c ≠ '/') = true := fun c hc =>
    decide_eq_true fun same => noSlash (same ▸ hc)
  have stops : ∀ c ∈ rest.head?, decide (c ≠ '/') = false := fun c hc =>
    decide_eq_false fun differ => differ (ends c hc)
  unfold splitPattern
  dsimp only
  rw [parts, Text.takeWhile_append all stops, Text.dropWhile_append all stops,
    String.ofList_toList]

/-- The two parts of a pattern are those that it is split into. -/
theorem parted_iff :
    Parted pattern modulePart memberPart ↔ splitPattern pattern = (modulePart, memberPart) := by
  constructor
  · rintro ⟨noSlash, parts | ⟨rfl, rfl⟩⟩
    · rw [splitPattern_of_append noSlash parts (by simp), List.drop_one, List.tail_cons,
        String.ofList_toList]
    · rw [splitPattern_of_append noSlash (List.append_nil _).symm (by simp)]
      rfl
  · intro split
    obtain ⟨front, back, parts, notSlash, ends, taken, dropped⟩ :=
      Text.exists_cut (fun c => decide (c ≠ '/')) pattern.toList
    unfold splitPattern at split
    dsimp only at split
    rw [taken, dropped] at split
    obtain ⟨rfl, rfl⟩ := Prod.mk.inj split
    rw [Parted, String.toList_ofList, String.toList_ofList]
    refine ⟨fun slash => of_decide_eq_true (notSlash _ slash) rfl, ?_⟩
    cases back with
    | nil =>
      refine .inr ⟨?_, rfl⟩
      rw [← String.toList_inj, parts, String.toList_ofList, List.append_nil]
    | cons c rest =>
      have isSlash : c = '/' := by simpa using ends c rfl
      exact .inl (isSlash ▸ parts)

/-! ## What stands in a selection -/

/-- What can stand in the tables of a selection. -/
inductive Entry where
  /-- A module that is selected whole. -/
  | whole (module : String)
  /-- A module with members of its own in the table. -/
  | listed (module : String)
  /-- A member of a module. -/
  | member (module member : String)

/-- What stands in the tables of a selection. -/
def Holds (s : Selection) : Entry → Prop
  | .whole module => module ∈ s.modules
  | .listed module => module ∈ s.members.map Prod.fst
  | .member module member => member ∈ s.membersOf module

/-- Two selections are the same but for the order in which things stand in their tables. -/
structure Same (s t : Selection) : Prop where
  full : s.full = t.full
  holds : ∀ entry, s.Holds entry ↔ t.Holds entry

/-- What a pattern enters, given the two parts of it and a module with the names of its cells and
wires. -/
def Enters (modulePart memberPart : String) (e : String × List String) : Entry → Prop
  | .whole module => module = e.1 ∧ accepts modulePart e.1 = true ∧ memberPart = ""
  | .listed module => module = e.1 ∧ accepts modulePart e.1 = true ∧ memberPart ≠ "" ∧
      ∃ member ∈ e.2, accepts memberPart member = true
  | .member module member => module = e.1 ∧ accepts modulePart e.1 = true ∧ memberPart ≠ "" ∧
      member ∈ e.2 ∧ accepts memberPart member = true

/-- A pattern enters only modules that its module part accepts. -/
theorem Enters.accepted {entry : Entry} (enters : Enters modulePart memberPart e entry) :
    accepts modulePart e.1 = true := by
  cases entry <;> exact enters.2.1

/-- A module is selected when everything is, when it is entered whole, or when a member of it is. -/
theorem hasModule_iff : s.hasModule module = true ↔
    s.full = true ∨ s.Holds (.whole module) ∨ ∃ member, s.Holds (.member module member) := by
  simp only [hasModule, Bool.or_eq_true, List.contains_iff_mem, Bool.not_eq_true', or_assoc,
    List.isEmpty_eq_false_iff_exists_mem, Holds]

/-- A member is selected when everything is, when its module is entered whole, or when it is entered
itself. -/
theorem hasMember_iff : s.hasMember module member = true ↔
    s.full = true ∨ s.Holds (.whole module) ∨ s.Holds (.member module member) := by
  simp only [hasMember, Bool.or_eq_true, List.contains_iff_mem, or_assoc, Holds]

theorem holds_nothing (entry : Entry) : ¬ nothing.Holds entry := by
  cases entry <;> simp [Holds, nothing, membersOf]

/-! ## One step -/

theorem mem_map_fst_withMembers (m : String) : m ∈ (withMembers module names table).map Prod.fst ↔
    m ∈ table.map Prod.fst ∨ m = module := by
  induction table with
  | nil => simp [withMembers]
  | cons first rest ih =>
    obtain ⟨m, old⟩ := first
    rw [withMembers]
    split
    · next same => simp [← same, or_comm]
    · simp only [List.map_cons, List.mem_cons, ih, or_assoc]

/-- The members put under a module come behind those that stood there, each name once. -/
theorem lookup_withMembers (module : String) (names : List String)
    (table : List (String × List String)) (m : String) :
    (withMembers module names table).lookup m =
      if m = module then some (((table.lookup m).getD [] ++ names).eraseDups)
      else table.lookup m := by
  induction table with
  | nil =>
    rw [withMembers, List.lookup_cons]
    split <;> simp_all
  | cons first rest ih =>
    obtain ⟨first, old⟩ := first
    rw [withMembers]
    split
    · next same =>
      subst same
      rw [List.lookup_cons, List.lookup_cons]
      split <;> simp_all
    · next differ =>
      rw [List.lookup_cons, List.lookup_cons, ih]
      cases same : m == first with
      | true =>
        have other : m ≠ module := fun h => differ ((beq_iff_eq.mp same).symm.trans h)
        simp only [if_neg other]
      | false => rfl

theorem membersOf_addMembers (nonempty : names ≠ []) (m : String) :
    (s.addMembers module names).membersOf m =
      if m = module then (s.membersOf m ++ names).eraseDups else s.membersOf m := by
  have notEmpty : names.isEmpty = false := List.isEmpty_eq_false_iff.mpr nonempty
  simp only [addMembers, notEmpty, membersOf, lookup_withMembers, Bool.false_eq_true, ↓reduceIte]
  split <;> rfl

/-- Entering a module whole enters that and nothing else. -/
theorem holds_addModule (entry : Entry) :
    (s.addModule module).Holds entry ↔ s.Holds entry ∨ entry = .whole module := by
  cases entry with
  | whole m => simp [Holds, addModule, or_comm]
  | listed m => simp [Holds, addModule]
  | member m n => simp [Holds, addModule, membersOf]

/-- Entering members of a module lists the module and enters the members, and nothing else. -/
theorem holds_addMembers (entry : Entry) : (s.addMembers module names).Holds entry ↔
    s.Holds entry ∨ ∃ n ∈ names, entry = .listed module ∨ entry = .member module n := by
  by_cases none : names = []
  · simp [addMembers, none]
  · have some : ∃ n, n ∈ names := List.exists_mem_of_ne_nil names none
    cases entry with
    | whole m => simp [Holds, addMembers, none]
    | listed m => simp [Holds, addMembers, none, mem_map_fst_withMembers, some]
    | member m n =>
      simp only [Holds, membersOf_addMembers none]
      split
      · next same => simp [same, List.mem_eraseDups]
      · next differ => simp [differ]

/-- **One step of a pattern.** What stands in a selection behind it stood there before or is entered
by the pattern. -/
theorem holds_addPatternIn (s : Selection) (e : String × List String) (entry : Entry) :
    (addPatternIn modulePart memberPart s e).Holds entry ↔
      s.Holds entry ∨ Enters modulePart memberPart e entry := by
  unfold addPatternIn
  split
  · next accepted =>
    split
    · next empty =>
      rw [String.isEmpty_iff] at empty
      rw [holds_addModule]
      refine or_congr_right ?_
      cases entry <;> simp [Enters, accepted, empty]
    · next nonempty =>
      rw [String.isEmpty_iff] at nonempty
      rw [holds_addMembers]
      refine or_congr_right ?_
      cases entry <;> simp [Enters, accepted, nonempty, and_comm]
  · next refused => exact ⟨.inl, fun h => h.resolve_right fun enters => refused enters.accepted⟩

/-! ## A run over all patterns -/

/-- A pattern enters what it enters of each module of the table, and nothing else. -/
theorem holds_addPattern (s : Selection) (pattern : String) (entry : Entry) :
    (addPattern table s pattern).Holds entry ↔ s.Holds entry ∨
      ∃ e ∈ table, Enters (splitPattern pattern).1 (splitPattern pattern).2 e entry :=
  foldl_iff (P := fun s => s.Holds entry) (fun s e => holds_addPatternIn s e entry) s table

/-- What patterns select is what one of them enters for one of the modules. -/
theorem holds_ofPatterns (nonempty : patterns ≠ []) (entry : Entry) :
    (ofPatterns table patterns).Holds entry ↔ ∃ p ∈ patterns, ∃ e ∈ table,
      Enters (splitPattern p).1 (splitPattern p).2 e entry := by
  rw [ofPatterns, if_neg (by simpa using nonempty),
    foldl_iff (P := fun s => s.Holds entry) (fun s p => holds_addPattern s p entry),
    or_iff_right (holds_nothing entry)]

theorem full_addPatternIn (s : Selection) (e : String × List String) :
    (addPatternIn modulePart memberPart s e).full = s.full := by
  unfold addPatternIn addModule addMembers
  repeat' split
  all_goals rfl

theorem full_foldl {α : Type} {step : Selection → α → Selection}
    (keeps : ∀ s a, (step s a).full = s.full) (s : Selection) (as : List α) :
    (as.foldl step s).full = s.full := by
  induction as generalizing s with
  | nil => rfl
  | cons a rest ih => rw [List.foldl_cons, ih, keeps]

/-- No pattern makes a selection one of everything. -/
theorem full_addPattern (s : Selection) (pattern : String) :
    (addPattern table s pattern).full = s.full :=
  full_foldl full_addPatternIn s table

/-- A selection made from patterns is not one of everything. -/
theorem full_ofPatterns (nonempty : patterns ≠ []) : (ofPatterns table patterns).full = false := by
  rw [ofPatterns, if_neg (by simpa using nonempty), full_foldl full_addPattern]
  rfl

/-- Selections with the same entries select the same modules. -/
theorem Same.hasModule_eq (same : s.Same t) (module : String) :
    s.hasModule module = t.hasModule module := by
  rw [Bool.eq_iff_iff]
  simp only [hasModule_iff, same.full, same.holds]

/-- Selections with the same entries select the same members. -/
theorem Same.hasMember_eq (same : s.Same t) (module member : String) :
    s.hasMember module member = t.hasMember module member := by
  rw [Bool.eq_iff_iff]
  simp only [hasMember_iff, same.full, same.holds]

/-- The order of the patterns and how often they stand there make no difference. -/
theorem same_ofPatterns {others : List String} (among : ∀ p, p ∈ others ↔ p ∈ patterns) :
    (ofPatterns table others).Same (ofPatterns table patterns) := by
  by_cases none : patterns = []
  · subst none
    have noneToo : others = [] := List.eq_nil_iff_forall_not_mem.mpr fun p hp =>
      List.not_mem_nil ((among p).mp hp)
    rw [noneToo]
    exact ⟨rfl, fun _ => .rfl⟩
  · obtain ⟨p, hp⟩ := List.exists_mem_of_ne_nil patterns none
    have someToo : others ≠ [] := List.ne_nil_of_mem ((among p).mpr hp)
    refine ⟨(full_ofPatterns someToo).trans (full_ofPatterns none).symm, fun entry => ?_⟩
    simp only [holds_ofPatterns someToo, holds_ofPatterns none, among]

/-! ## What a pattern picks -/

/-- The names of the cells and wires of a module, as patterns see them. -/
def memberNames (m : Module) : List String := m.cells.names ++ m.wires.names

/-- A pattern picks a module when its first part accepts the name of the module and its second part
is empty or accepts the name of some cell or wire. -/
def PicksModule (pattern : String) (m : Module) : Prop :=
  ∃ modulePart memberPart, Parted pattern modulePart memberPart ∧
    accepts modulePart m.name = true ∧
      (memberPart = "" ∨ ∃ name ∈ memberNames m, accepts memberPart name = true)

/-- A pattern picks a member of a module when its first part accepts the name of the module and its
second part is empty or accepts the name of the member. -/
def PicksMember (pattern : String) (m : Module) (name : String) : Prop :=
  ∃ modulePart memberPart, Parted pattern modulePart memberPart ∧
    accepts modulePart m.name = true ∧ (memberPart = "" ∨ accepts memberPart name = true)

/-- What it is to pick a module, in the parts that a pattern is split into. -/
theorem picksModule_iff {m : Module} : PicksModule pattern m ↔
    accepts (splitPattern pattern).1 m.name = true ∧ ((splitPattern pattern).2 = "" ∨
      ∃ name ∈ memberNames m, accepts (splitPattern pattern).2 name = true) := by
  simp only [PicksModule, parted_iff]
  constructor
  · rintro ⟨_, _, split, picks⟩
    rwa [split]
  · exact fun picks => ⟨_, _, rfl, picks⟩

/-- What it is to pick a member, in the parts that a pattern is split into. -/
theorem picksMember_iff {m : Module} {name : String} : PicksMember pattern m name ↔
    accepts (splitPattern pattern).1 m.name = true ∧ ((splitPattern pattern).2 = "" ∨
      accepts (splitPattern pattern).2 name = true) := by
  simp only [PicksMember, parted_iff]
  constructor
  · rintro ⟨_, _, split, picks⟩
    rwa [split]
  · exact fun picks => ⟨_, _, rfl, picks⟩

/-- A star accepts every name. -/
theorem accepts_star (name : String) : accepts "*" name = true := by
  have star : Text.globAccepts "*" name = true := by
    rw [Text.globAccepts_eq]
    exact (Text.someEnd_eq_true_iff _ _).mpr ⟨[], List.nil_suffix, rfl⟩
  rw [accepts, star, Bool.or_true]

/-- The star picks every member of every module. -/
theorem picksMember_star (m : Module) (name : String) : PicksMember "*" m name :=
  ⟨"*", "", ⟨by decide, .inr ⟨rfl, rfl⟩⟩, accepts_star _, .inl rfl⟩

/-- The star picks every module. -/
theorem picksModule_star (m : Module) : PicksModule "*" m :=
  ⟨"*", "", ⟨by decide, .inr ⟨rfl, rfl⟩⟩, accepts_star _, .inl rfl⟩

end Selection

namespace Design

variable {d : Design} {m : Module} {c : Cell} {modulePart memberPart pattern name : String}
  {patterns : List String}

open Selection

/-- A module has one row in the table that patterns see. -/
theorem exists_row_iff (hm : m ∈ d.modules.toList) {Q : String × List String → Prop} :
    (∃ e ∈ d.patternTable, m.name = e.1 ∧ Q e) ↔ Q (m.name, memberNames m) := by
  constructor
  · rintro ⟨e, he, named, holds⟩
    obtain ⟨other, hother, rfl⟩ := List.mem_map.mp he
    rw [eq_of_name_eq hm hother named]
    exact holds
  · exact fun holds => ⟨_, List.mem_map_of_mem hm, rfl, holds⟩

/-- What a pattern enters for a module, it enters at the row of that module. -/
theorem enters_whole_iff (hm : m ∈ d.modules.toList) :
    (∃ e ∈ d.patternTable, Enters modulePart memberPart e (.whole m.name)) ↔
      accepts modulePart m.name = true ∧ memberPart = "" :=
  exists_row_iff hm

theorem enters_member_iff (hm : m ∈ d.modules.toList) :
    (∃ e ∈ d.patternTable, Enters modulePart memberPart e (.member m.name name)) ↔
      accepts modulePart m.name = true ∧ memberPart ≠ "" ∧
        name ∈ memberNames m ∧ accepts memberPart name = true :=
  exists_row_iff hm

/-- A module of the design is selected by patterns exactly when one of them picks it. -/
theorem hasModule_ofPatterns_iff (nonempty : patterns ≠ []) (hm : m ∈ d.modules.toList) :
    (ofPatterns d.patternTable patterns).hasModule m.name = true ↔
      ∃ p ∈ patterns, PicksModule p m := by
  simp only [hasModule_iff, full_ofPatterns nonempty, Bool.false_eq_true, false_or,
    holds_ofPatterns nonempty, enters_whole_iff hm, enters_member_iff hm, picksModule_iff]
  constructor
  · rintro (⟨p, hp, accepted, empty⟩ | ⟨name, p, hp, accepted, -, isMember⟩)
    · exact ⟨p, hp, accepted, .inl empty⟩
    · exact ⟨p, hp, accepted, .inr ⟨name, isMember⟩⟩
  · rintro ⟨p, hp, accepted, picks⟩
    by_cases empty : (splitPattern p).2 = ""
    · exact .inl ⟨p, hp, accepted, empty⟩
    · obtain ⟨name, isMember⟩ := picks.resolve_left empty
      exact .inr ⟨name, p, hp, accepted, empty, isMember⟩

/-- A member of a module is selected by patterns exactly when one of them picks it. -/
theorem hasMember_ofPatterns_iff (nonempty : patterns ≠ []) (hm : m ∈ d.modules.toList)
    (hname : name ∈ memberNames m) :
    (ofPatterns d.patternTable patterns).hasMember m.name name = true ↔
      ∃ p ∈ patterns, PicksMember p m name := by
  simp only [hasMember_iff, full_ofPatterns nonempty, Bool.false_eq_true, false_or,
    holds_ofPatterns nonempty, enters_whole_iff hm, enters_member_iff hm, picksMember_iff]
  constructor
  · rintro (⟨p, hp, accepted, empty⟩ | ⟨p, hp, accepted, -, -, isMember⟩)
    · exact ⟨p, hp, accepted, .inl empty⟩
    · exact ⟨p, hp, accepted, .inr isMember⟩
  · rintro ⟨p, hp, accepted, picks⟩
    by_cases empty : (splitPattern p).2 = ""
    · exact .inl ⟨p, hp, accepted, empty⟩
    · exact .inr ⟨p, hp, accepted, empty, hname, picks.resolve_left empty⟩

/-! ## What is selected -/

theorem mem_selectedModules_select_iff (nonempty : patterns ≠ []) :
    m ∈ (d.select patterns).selectedModules ↔
      m ∈ d.modules.toList ∧ ∃ p ∈ patterns, PicksModule p m :=
  List.mem_filter.trans (and_congr_right fun hm => hasModule_ofPatterns_iff nonempty hm)

theorem mem_selectedCells_select_iff (nonempty : patterns ≠ []) (hm : m ∈ d.modules.toList) :
    c ∈ (d.select patterns).selectedCells m ↔
      c ∈ m.cells.toList ∧ ∃ p ∈ patterns, PicksMember p m c.name :=
  List.mem_filter.trans (and_congr_right fun hc => hasMember_ofPatterns_iff nonempty hm
    (List.mem_append_left _ (List.mem_map_of_mem hc)))

/-- Nothing is lost when patterns join patterns that are there already. -/
theorem selectedModules_select_subset {more : List String} (nonempty : patterns ≠ [])
    (kept : patterns ⊆ more) :
    (d.select patterns).selectedModules ⊆ (d.select more).selectedModules := by
  intro m isSelected
  obtain ⟨hm, p, hp, picks⟩ := (mem_selectedModules_select_iff nonempty).mp isSelected
  have stillSome : more ≠ [] := List.ne_nil_of_mem (kept hp)
  exact (mem_selectedModules_select_iff stillSome).mpr ⟨hm, p, kept hp, picks⟩

/-- More patterns select no fewer cells. -/
theorem selectedCells_select_subset {more : List String} (nonempty : patterns ≠ [])
    (kept : patterns ⊆ more) (hm : m ∈ d.modules.toList) :
    (d.select patterns).selectedCells m ⊆ (d.select more).selectedCells m := by
  intro c isSelected
  obtain ⟨hc, p, hp, picks⟩ := (mem_selectedCells_select_iff nonempty hm).mp isSelected
  have stillSome : more ≠ [] := List.ne_nil_of_mem (kept hp)
  exact (mem_selectedCells_select_iff stillSome hm).mpr ⟨hc, p, kept hp, picks⟩

/-- The star selects the modules that no pattern at all selects. -/
theorem selectedModules_select_star (d : Design) :
    (d.select ["*"]).selectedModules = (d.select []).selectedModules := by
  refine List.filter_congr fun m hm => ?_
  change _ = everything.hasModule m.name
  exact (hasModule_ofPatterns_iff (List.cons_ne_nil _ _) hm).mpr
    ⟨"*", List.mem_singleton_self _, picksModule_star m⟩

/-- The star selects the cells that no pattern at all selects. -/
theorem selectedCells_select_star (hm : m ∈ d.modules.toList) :
    (d.select ["*"]).selectedCells m = (d.select []).selectedCells m := by
  refine List.filter_congr fun c hc => ?_
  change _ = everything.hasMember m.name c.name
  have isMember : c.name ∈ memberNames m := List.mem_append_left _ (List.mem_map_of_mem hc)
  exact (hasMember_ofPatterns_iff (List.cons_ne_nil _ _) hm isMember).mpr
    ⟨"*", List.mem_singleton_self _, picksMember_star m c.name⟩

/-- **What patterns select.** A module is selected just when some pattern picks it, and a cell of a
module just when some pattern picks the cell. So cells are selected in selected modules only. The
selection does not depend on the order of the patterns or on how often they stand there, and nothing
is lost when patterns are added to it. A star alone selects what no pattern at all does. -/
theorem select_picks (d : Design) (nonempty : patterns ≠ []) :
    (∀ m, m ∈ (d.select patterns).selectedModules ↔
      m ∈ d.modules.toList ∧ ∃ p ∈ patterns, PicksModule p m) ∧
    (∀ m ∈ d.modules.toList, ∀ c, c ∈ (d.select patterns).selectedCells m ↔
      c ∈ m.cells.toList ∧ ∃ p ∈ patterns, PicksMember p m c.name) ∧
    (∀ m ∈ d.modules.toList, ∀ c ∈ (d.select patterns).selectedCells m,
      m ∈ (d.select patterns).selectedModules) ∧
    (∀ others, (∀ p, p ∈ others ↔ p ∈ patterns) →
      (d.select others).selection.Same (d.select patterns).selection ∧
      (d.select others).selectedModules = (d.select patterns).selectedModules ∧
      ∀ m, (d.select others).selectedCells m = (d.select patterns).selectedCells m) ∧
    (∀ more, patterns ⊆ more →
      (d.select patterns).selectedModules ⊆ (d.select more).selectedModules ∧
      ∀ m ∈ d.modules.toList,
        (d.select patterns).selectedCells m ⊆ (d.select more).selectedCells m) ∧
    (d.select ["*"]).selectedModules = (d.select []).selectedModules ∧
    ∀ m ∈ d.modules.toList, (d.select ["*"]).selectedCells m = (d.select []).selectedCells m := by
  refine ⟨fun m => mem_selectedModules_select_iff nonempty,
    fun m hm c => mem_selectedCells_select_iff nonempty hm,
    fun m hm c selected => mem_selectedModules_of_selectedCell hm selected,
    fun others among => ?_, fun more kept => ⟨?_, fun m hm => ?_⟩,
    d.selectedModules_select_star, fun m hm => selectedCells_select_star hm⟩
  · have same : (d.select others).selection.Same (d.select patterns).selection :=
      same_ofPatterns among
    exact ⟨same, List.filter_congr fun m _ => same.hasModule_eq m.name,
      fun m => List.filter_congr fun c _ => same.hasMember_eq m.name c.name⟩
  · exact selectedModules_select_subset nonempty kept
  · exact selectedCells_select_subset nonempty kept hm

/-- A processor with two adders and a register. -/
def processor : Module :=
  let cell (name type : String) : Cell := ⟨name, type, ∅, ∅⟩
  { Module.new "\\cpu" with
    cells := ⟨[cell "\\alu_0" "$add", cell "$alu_1" "$add", cell "\\pc" "$dff"], by decide⟩ }

/-- A pad with one wire and one cell. -/
def pad : Module where
  name := "\\pad"
  wires := ⟨[⟨⟨"\\clk", 1, .declared "\\pad"⟩, some .input, []⟩], by decide⟩
  cells := ⟨[⟨"\\buf", "$buf", ∅, ∅⟩], by decide⟩
  connections := []
  processes := []

/-- A processor, a pad and a memory. -/
def board : Design := ⟨⟨[processor, pad, .new "\\mem"], by decide⟩, none, .everything⟩

/-- A pattern for cells, one for a wire, and one whose second part accepts nothing. -/
def boardPatterns : List String := ["cpu/alu_*", "pad/clk", "*/none/*"]

theorem select_picks_board : boardPatterns ≠ [] ∧
    (board.select boardPatterns).selectedModules.map (·.name) = ["\\cpu", "\\pad"] ∧
    ((board.select boardPatterns).selectedCells processor).map (·.name) = ["\\alu_0"] ∧
    ((board.select boardPatterns).selectedCells pad).map (·.name) = [] ∧
    (∃ p ∈ boardPatterns, PicksModule p pad) ∧
    ¬ ∃ p ∈ boardPatterns, PicksModule p (.new "\\mem") := by
  have nonempty : boardPatterns ≠ [] := List.cons_ne_nil _ _
  have hpad : pad ∈ board.modules.toList := .tail _ (.head _)
  have hmem : Module.new "\\mem" ∈ board.modules.toList := .tail _ (.tail _ (.head _))
  have padSelected : pad ∈ (board.select boardPatterns).selectedModules :=
    List.mem_filter.mpr ⟨hpad, by decide +kernel⟩
  have memLeftOut : Module.new "\\mem" ∉ (board.select boardPatterns).selectedModules :=
    fun isSelected => absurd (List.mem_filter.mp isSelected).2 (by decide +kernel)
  obtain ⟨picked, -⟩ := select_picks board nonempty
  exact ⟨nonempty, by decide +kernel, by decide +kernel, by decide +kernel,
    ((picked pad).mp padSelected).2, fun picks => memLeftOut ((picked _).mpr ⟨hmem, picks⟩)⟩

end Design

end NearestMux
