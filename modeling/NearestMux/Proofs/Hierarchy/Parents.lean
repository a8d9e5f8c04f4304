import Mathlib.Data.List.Nodup
import NearestMux.Proofs.Hierarchy.Order
import NearestMux.Proofs.Lists
import NearestMux.Search.Expansion

/-!
# Parents — which module an index takes a module to stand in

A module may have instances in many modules, and an index keeps one of them as its parent. Which one
follows from the instances alone: they are noted in the order of the design, and the last one noted
counts. Here it is said without instances. The modules that hold a module are the selected ones with
a selected cell of its type (`Design.holders`); the parent is the last of them, and a module is
shared when it has two (`Design.index_parents`).

Two things about parents are less plain.

* A module is known to be shared without all its outer modules being kept. It is enough to look at
  the parent noted before, each time one is noted (`ParentNotes.note`): if all instances agree with
  the one before them, they all agree. `Design.noted_instances` says so, of every row of instances.
* Parents lead out of the hierarchy. The order knows nothing of parents, but it puts a module behind
  whatever stands inside it, so a parent stands behind its child, and whoever goes from parent to
  parent meets no module twice and comes to an end (`SearchSetting.exists_outwards`).
-/

namespace NearestMux

/-! ## Parents as they are noted -/

/-- The parents noted so far, the latest first, and the modules that two parents were noted of. -/
structure ParentNotes where
  /-- Modules and the parents noted of them. -/
  parents : List (String × String)
  /-- The modules of which a parent was noted that differs from the one before. -/
  shared : List String

namespace ParentNotes

/-- Nothing is noted. -/
def none : ParentNotes := ⟨[], []⟩

/-- The parent noted last of a module. -/
def parent? (notes : ParentNotes) (name : String) : Option String := notes.parents.lookup name

/-- Notes the outer module of an instance as the parent of the inner one. -/
def note (notes : ParentNotes) (e : Instantiation) : ParentNotes where
  parents := (e.inner, e.outer) :: notes.parents
  shared :=
    if (notes.parent? e.inner).any (· != e.outer) then e.inner :: notes.shared else notes.shared

end ParentNotes

/-- The outer modules of a module in a row of instances, instance by instance. -/
def outersIn (instances : List Instantiation) (name : String) : List String :=
  (instances.filter (·.inner == name)).map (·.outer)

/-- Two members of a row differ. -/
def Differ (names : List String) : Prop := ∃ a ∈ names, ∃ b ∈ names, a ≠ b

theorem differ_cons_iff {first : String} {rest : List String} :
    Differ (first :: rest) ↔ ∃ a ∈ rest, a ≠ first := by
  constructor
  · rintro ⟨a, ha, b, hb, apart⟩
    -- one of the two is not the first, and a member that is not the first stands in the rest
    by_cases same : a = first
    · subst same
      exact ⟨b, (List.mem_cons.mp hb).resolve_left (Ne.symm apart), Ne.symm apart⟩
    · exact ⟨a, (List.mem_cons.mp ha).resolve_left same, same⟩
  · rintro ⟨a, ha, apart⟩
    exact ⟨a, List.mem_cons_of_mem _ ha, first, List.mem_cons_self, apart⟩

/-- A member more makes a row differ just when it differs from the last one. -/
theorem differ_append_singleton_iff {names : List String} {name : String} :
    Differ (names ++ [name]) ↔ Differ names ∨ ∃ last, names.getLast? = some last ∧ last ≠ name := by
  constructor
  · rintro ⟨a, ha, b, hb, apart⟩
    by_cases differ : Differ names
    · exact .inl differ
    · have alike : ∀ a ∈ names, ∀ b ∈ names, a = b := by
        intro a ha b hb
        by_contra apart
        exact differ ⟨a, ha, b, hb, apart⟩
      have other : ∃ a ∈ names, a ≠ name := by
        rcases List.mem_append.mp ha with ha | ha
        · rcases List.mem_append.mp hb with hb | hb
          · exact absurd (alike a ha b hb) apart
          · exact ⟨a, ha, List.mem_singleton.mp hb ▸ apart⟩
        · rcases List.mem_append.mp hb with hb | hb
          · exact ⟨b, hb, List.mem_singleton.mp ha ▸ apart.symm⟩
          · exact absurd ((List.mem_singleton.mp ha).trans (List.mem_singleton.mp hb).symm) apart
      obtain ⟨a, ha, apart⟩ := other
      cases ends : names.getLast? with
      | none =>
        rw [List.getLast?_eq_none_iff.mp ends] at ha
        cases ha
      | some last =>
        exact .inr ⟨last, rfl, alike a ha last (List.mem_of_getLast? ends) ▸ apart⟩
  · rintro (⟨a, ha, b, hb, apart⟩ | ⟨last, ends, apart⟩)
    · exact ⟨a, List.mem_append_left _ ha, b, List.mem_append_left _ hb, apart⟩
    · exact ⟨last, List.mem_append_left _ (List.mem_of_getLast? ends), name,
        List.mem_append_right _ (List.mem_singleton_self name), apart⟩

theorem outersIn_append_singleton (instances : List Instantiation) (e : Instantiation)
    (name : String) : outersIn (instances ++ [e]) name =
      outersIn instances name ++ if e.inner = name then [e.outer] else [] := by
  unfold outersIn
  rw [List.filter_append, List.map_append]
  congr 1
  by_cases same : e.inner = name
  · simp [same]
  · simp [same]

namespace ParentNotes

/-- Notes agree with a row of instances: they hold the last outer module of every module, and the
modules whose outer modules differ. -/
structure Agree (notes : ParentNotes) (instances : List Instantiation) : Prop where
  parent : ∀ name, notes.parent? name = (outersIn instances name).getLast?
  shared : ∀ name, name ∈ notes.shared ↔ Differ (outersIn instances name)

theorem agree_none : none.Agree [] where
  parent := fun _ => rfl
  shared := fun _ => ⟨nofun, nofun⟩

/-- An instance that is noted is the last one. -/
theorem Agree.note {notes : ParentNotes} {instances : List Instantiation}
    (agree : notes.Agree instances) (e : Instantiation) :
    (notes.note e).Agree (instances ++ [e]) := by
  constructor
  · intro name
    rw [outersIn_append_singleton]
    change List.lookup name ((e.inner, e.outer) :: notes.parents) = _
    rw [List.lookup_cons]
    by_cases same : e.inner = name
    · simp [same]
    · have other : (name == e.inner) = false := by simpa using Ne.symm same
      rw [other, if_neg same, List.append_nil]
      exact agree.parent name
  · intro name
    rw [outersIn_append_singleton]
    simp only [ParentNotes.note]
    by_cases same : e.inner = name
    · subst same
      rw [if_pos rfl, differ_append_singleton_iff, ← agree.shared, ← agree.parent]
      cases noted : notes.parent? e.inner with
      | none => simp
      | some last =>
        by_cases apart : last = e.outer
        · simp [apart]
        · simp [apart]
    · rw [if_neg same, List.append_nil, ← agree.shared]
      split
      · simp [Ne.symm same]
      · rfl

/-- Whatever row of instances is noted, one after the other, the notes agree with it. -/
theorem agree_foldl (instances : List Instantiation) :
    (instances.foldl ParentNotes.note none).Agree instances := by
  -- by induction on what is left, for whatever was noted before
  have run : ∀ {notes : ParentNotes} {done rest : List Instantiation}, notes.Agree done →
      (rest.foldl ParentNotes.note notes).Agree (done ++ rest) := by
    intro notes done rest agree
    induction rest generalizing notes done with
    | nil => rwa [List.append_nil]
    | cons e rest ih =>
      have next := ih (agree.note e)
      rwa [List.append_assoc, List.singleton_append] at next
  exact run agree_none

end ParentNotes

/-! ## What an index holds -/

namespace HierarchyIndex

variable {index : HierarchyIndex} {name parent : String}

theorem isShared_iff : index.isShared name = true ↔ Differ (index.outersOf name) := by
  unfold isShared
  cases index.outersOf name with
  | nil => exact ⟨nofun, nofun⟩
  | cons first rest =>
    rw [differ_cons_iff]
    simp

theorem mem_children_iff : name ∈ index.children ↔ index.outersOf name ≠ [] := by
  unfold children outersOf
  rw [List.mem_eraseDups, List.mem_map, ne_eq, List.map_eq_nil_iff, List.filter_eq_nil_iff]
  simp

theorem mem_shared_iff : name ∈ index.shared ↔ Differ (index.outersOf name) := by
  unfold shared
  rw [List.mem_mergeSort, List.mem_filter, isShared_iff, mem_children_iff, and_iff_right_iff_imp]
  rintro ⟨a, ha, -⟩
  exact List.ne_nil_of_mem ha

/-- The parents are listed once for each module that has one. -/
theorem mem_parents_iff : (name, parent) ∈ index.parents ↔ index.parent? name = some parent := by
  unfold parents
  rw [List.mem_filterMap]
  constructor
  · rintro ⟨name', -, listed⟩
    obtain ⟨parent', isParent, same⟩ := Option.map_eq_some_iff.mp listed
    cases same
    exact isParent
  · intro isParent
    refine ⟨name, ?_, by rw [isParent]; rfl⟩
    rw [List.mem_mergeSort, mem_children_iff]
    exact List.ne_nil_of_mem (List.mem_of_getLast? isParent)

end HierarchyIndex

namespace Design

variable {d : Design} {index : HierarchyIndex} {m : Module} {name outer : String}

theorem mem_order_iff (built : d.index = .ok index) : name ∈ index.order ↔ d.InHierarchy name :=
  (isHierarchyOrder_of_index built).mem_iff name

theorem instances_of_index (built : d.index = .ok index) : index.instances = d.instances := by
  unfold Design.index at built
  split at built
  · cases built
  · dsimp only at built
    split at built
    · cases built
      rfl
    · cases built

/-- A parent is a selected module. -/
theorem inHierarchy_of_parent? (built : d.index = .ok index)
    (standsIn : index.parent? name = some outer) : d.InHierarchy outer := by
  have isOuter := List.mem_of_getLast? standsIn
  obtain ⟨instantiation, hi, rfl⟩ := List.mem_map.mp isOuter
  have known := (List.mem_filter.mp hi).1
  rw [instances_of_index built] at known
  obtain ⟨m, selected, made⟩ := List.mem_flatMap.mp known
  obtain ⟨inner, -, rfl⟩ := List.mem_map.mp made
  exact .selected selected

/-- The names of the modules that the selected cells of a module instantiate, cell by cell. -/
def innerNames (d : Design) (m : Module) : List String := (d.instantiatedIn m).map Module.name

/-- The outer modules of the instances of a module: each as often as it has instances. -/
theorem outersOf_of_index (built : d.index = .ok index) (name : String) :
    index.outersOf name = d.selectedModules.flatMap fun outer =>
      List.replicate ((d.innerNames outer).count name) outer.name := by
  rw [HierarchyIndex.outersOf, instances_of_index built, instances, List.filter_flatMap,
    List.map_flatMap]
  refine List.flatMap_congr fun outer _ => ?_
  rw [List.filter_map, List.map_map, innerNames, List.count_eq_countP, List.countP_map,
    List.countP_eq_length_filter]
  exact List.map_const'

/-- The parents that are noted while the instances are gone through are those of the index. -/
theorem noted_instances (built : d.index = .ok index) (name : String) :
    let notes := d.instances.foldl ParentNotes.note .none
    notes.parent? name = index.parent? name ∧ (name ∈ notes.shared ↔ name ∈ index.shared) := by
  have agree := ParentNotes.agree_foldl d.instances
  have outers : index.outersOf name = outersIn d.instances name := by
    rw [HierarchyIndex.outersOf, instances_of_index built, outersIn]
  constructor
  · rw [agree.parent, HierarchyIndex.parent?, outers]
  · rw [agree.shared, HierarchyIndex.mem_shared_iff, outers]

/-! ## The modules that hold a module -/

/-- The selected modules with a selected cell of a type, in the order of the design. -/
def holders (d : Design) (type : String) : List Module :=
  d.selectedModules.filter fun m => (d.selectedCells m).any (·.type == type)

theorem mem_holders_iff : m ∈ d.holders name ↔
    m ∈ d.selectedModules ∧ ∃ c ∈ d.selectedCells m, c.type = name := by
  rw [holders, List.mem_filter]
  simp

theorem count_innerNames_ne_zero_iff : (d.innerNames m).count name ≠ 0 ↔
    (d.module? name).isSome = true ∧ ∃ c ∈ d.selectedCells m, c.type = name := by
  rw [ne_eq, List.count_eq_zero, not_not, innerNames, List.mem_map]
  constructor
  · rintro ⟨i, hi, rfl⟩
    obtain ⟨hi, cells⟩ := mem_instantiatedIn.mp hi
    exact ⟨by rw [d.module?_eq_some_iff.mpr ⟨hi, rfl⟩]; rfl, cells⟩
  · rintro ⟨isModule, cells⟩
    obtain ⟨i, found⟩ := Option.isSome_iff_exists.mp isModule
    obtain ⟨hi, rfl⟩ := d.module?_eq_some_iff.mp found
    exact ⟨i, mem_instantiatedIn.mpr ⟨hi, cells⟩, rfl⟩

/-- The outer modules of the instances of a module are the modules that hold it. -/
theorem mem_outersOf_iff (built : d.index = .ok index) : outer ∈ index.outersOf name ↔
    (d.module? name).isSome = true ∧ ∃ m ∈ d.holders name, m.name = outer := by
  rw [outersOf_of_index built, List.mem_flatMap]
  simp only [List.mem_replicate, mem_holders_iff, count_innerNames_ne_zero_iff]
  constructor
  · rintro ⟨m, selected, ⟨isModule, cells⟩, rfl⟩
    exact ⟨isModule, m, ⟨selected, cells⟩, rfl⟩
  · rintro ⟨isModule, m, ⟨selected, cells⟩, rfl⟩
    exact ⟨m, selected, ⟨isModule, cells⟩, rfl⟩

/-- The parent of a module is the last one that holds it. -/
theorem parent?_eq_getLast?_holders (built : d.index = .ok index)
    (isModule : (d.module? name).isSome = true) :
    index.parent? name = ((d.holders name).getLast?).map (·.name) := by
  rw [HierarchyIndex.parent?, outersOf_of_index built, getLast?_flatMap_replicate, holders]
  congr 2
  refine List.filter_congr fun m _ => ?_
  rw [Bool.eq_iff_iff, decide_eq_true_iff, count_innerNames_ne_zero_iff]
  simp [isModule]

theorem parent?_isSome_iff (built : d.index = .ok index) :
    (∃ outer, index.parent? name = some outer) ↔ (d.module? name).isSome = true ∧
      ∃ m ∈ d.selectedModules, ∃ c ∈ d.selectedCells m, c.type = name := by
  constructor
  · rintro ⟨outer, isParent⟩
    have isOuter := List.mem_of_getLast? isParent
    obtain ⟨isModule, m, holds, -⟩ := (mem_outersOf_iff built).mp isOuter
    obtain ⟨selected, cells⟩ := mem_holders_iff.mp holds
    exact ⟨isModule, m, selected, cells⟩
  · rintro ⟨isModule, m, selected, cells⟩
    have holds : m ∈ d.holders name := mem_holders_iff.mpr ⟨selected, cells⟩
    rw [parent?_eq_getLast?_holders built isModule]
    exact ⟨_, congrArg _ (List.getLast?_eq_getLast_of_ne_nil (List.ne_nil_of_mem holds))⟩

theorem mem_shared_iff (built : d.index = .ok index) : name ∈ index.shared ↔
    (d.module? name).isSome = true ∧
      ∃ m ∈ d.holders name, ∃ m' ∈ d.holders name, m.name ≠ m'.name := by
  rw [HierarchyIndex.mem_shared_iff]
  constructor
  · rintro ⟨a, ha, b, hb, apart⟩
    obtain ⟨isModule, m, holds, rfl⟩ := (mem_outersOf_iff built).mp ha
    obtain ⟨-, m', holds', rfl⟩ := (mem_outersOf_iff built).mp hb
    exact ⟨isModule, m, holds, m', holds', apart⟩
  · rintro ⟨isModule, m, holds, m', holds', apart⟩
    exact ⟨m.name, (mem_outersOf_iff built).mpr ⟨isModule, m, holds, rfl⟩,
      m'.name, (mem_outersOf_iff built).mpr ⟨isModule, m', holds', rfl⟩, apart⟩

/-! ## Going from parent to parent -/

/-- A parent stands in the order, behind its child. -/
theorem idxOf_lt_of_parent? (built : d.index = .ok index)
    (isParent : index.parent? name = some outer) :
    outer ∈ index.order ∧ index.order.idxOf name < index.order.idxOf outer := by
  have placed := (mem_order_iff built).mpr (inHierarchy_of_parent? built isParent)
  have isOuter := List.mem_of_getLast? isParent
  obtain ⟨isModule, m, holds, rfl⟩ := (mem_outersOf_iff built).mp isOuter
  obtain ⟨selected, cells⟩ := mem_holders_iff.mp holds
  have hm := (List.mem_filter.mp selected).1
  have stands : d.StandsIn name m.name := ⟨m, d.module?_eq_some_iff.mpr ⟨hm, rfl⟩, cells, isModule⟩
  exact ⟨placed, (isHierarchyOrder_of_index built).inner_first name m.name placed stands⟩

end Design

namespace SearchSetting

variable {s : SearchSetting} {m : Module}

/-- The modules from one out of the hierarchy, each behind the one whose parent it is. The last of
them has no parent. -/
inductive Outwards (s : SearchSetting) : Module → List Module → Prop where
  /-- A module without a parent. -/
  | last {m : Module} (none : s.parent? m = none) : Outwards s m [m]
  /-- A module, and whatever comes from its parent on. -/
  | on {m outer : Module} {chain : List Module} (standsIn : s.parent? m = some outer)
      (further : Outwards s outer chain) : Outwards s m (m :: chain)

/-- The parent stands in the order, behind the module. -/
theorem idxOf_lt_of_parent (built : s.design.index = .ok s.index) {outer : Module}
    (standsIn : s.parent? m = some outer) :
    outer.name ∈ s.index.order ∧ s.index.order.idxOf m.name < s.index.order.idxOf outer.name := by
  obtain ⟨name, isParent, found⟩ := Option.bind_eq_some_iff.mp standsIn
  obtain ⟨-, rfl⟩ := s.design.module?_eq_some_iff.mp found
  exact Design.idxOf_lt_of_parent? built isParent

/-- Going outwards one comes to modules further and further behind in the order. -/
theorem Outwards.pairwise (built : s.design.index = .ok s.index) {chain : List Module}
    (way : s.Outwards m chain) :
    chain.Pairwise (fun a b => s.index.order.idxOf a.name < s.index.order.idxOf b.name) ∧
      ∀ b ∈ chain, s.index.order.idxOf m.name ≤ s.index.order.idxOf b.name := by
  induction way with
  | last => simp
  | on standsIn _ ih =>
    obtain ⟨ascending, behind⟩ := ih
    obtain ⟨-, less⟩ := idxOf_lt_of_parent built standsIn
    have later : ∀ b ∈ _, _ := fun b hb => less.trans_le (behind b hb)
    exact ⟨List.pairwise_cons.mpr ⟨later, ascending⟩,
      List.forall_mem_cons.mpr ⟨Nat.le_refl _, fun b hb => (later b hb).le⟩⟩

/-- From every module one gets out of the hierarchy. -/
theorem exists_outwards (built : s.design.index = .ok s.index) (m : Module) :
    ∃ chain, s.Outwards m chain := by
  -- by induction on how much of the order is behind the module
  induction left : s.index.order.length - s.index.order.idxOf m.name using Nat.strong_induction_on
    generalizing m with
  | _ left ih =>
    cases standsIn : s.parent? m with
    | none => exact ⟨[m], .last standsIn⟩
    | some outer =>
      obtain ⟨placed, less⟩ := idxOf_lt_of_parent built standsIn
      have within := List.idxOf_lt_length_iff.mpr placed
      obtain ⟨chain, further⟩ := ih _ (by omega) outer rfl
      exact ⟨m :: chain, .on standsIn further⟩

end SearchSetting

/-! ## The parents of an index -/

namespace Design

variable {d : Design} {index : HierarchyIndex}

/-- **Parents.** The parents that an index holds are those that are noted instance by instance. A
module has one just when it is the type of a selected cell of a selected module; it is the last
module that holds it, and the module is shared just when two different modules hold it, however many
instances there are in each. A parent stands in the order, behind its child; so whoever goes from
parent to parent, from whichever module, meets none twice and comes to an end. -/
theorem index_parents (built : d.index = .ok index) :
    (∀ name, let notes := d.instances.foldl ParentNotes.note .none
      notes.parent? name = index.parent? name ∧ (name ∈ notes.shared ↔ name ∈ index.shared)) ∧
    (∀ name parent, (name, parent) ∈ index.parents ↔ index.parent? name = some parent) ∧
    (∀ name, (∃ parent, index.parent? name = some parent) ↔ (d.module? name).isSome = true ∧
      ∃ m ∈ d.selectedModules, ∃ c ∈ d.selectedCells m, c.type = name) ∧
    (∀ name, (d.module? name).isSome = true →
      index.parent? name = ((d.holders name).getLast?).map (·.name)) ∧
    (∀ name, name ∈ index.shared ↔ (d.module? name).isSome = true ∧
      ∃ m ∈ d.holders name, ∃ m' ∈ d.holders name, m.name ≠ m'.name) ∧
    (∀ name parent, index.parent? name = some parent →
      parent ∈ index.order ∧ index.order.idxOf name < index.order.idxOf parent) ∧
    ∀ rule : MuxRule, ∀ m ∈ d.modules.toList,
      ∃ chain, SearchSetting.Outwards ⟨d, index, rule⟩ m chain ∧ (chain.map (·.name)).Nodup := by
  refine ⟨fun name => noted_instances built name, fun name parent => HierarchyIndex.mem_parents_iff,
    fun name => parent?_isSome_iff built, fun name isModule => ?_, fun name => mem_shared_iff built,
    fun name parent isParent => idxOf_lt_of_parent? built isParent, fun rule m _ => ?_⟩
  · exact parent?_eq_getLast?_holders built isModule
  · have built : (SearchSetting.mk d index rule).design.index = .ok index := built
    obtain ⟨chain, way⟩ := SearchSetting.exists_outwards built m
    obtain ⟨ascending, -⟩ := way.pairwise built
    refine ⟨chain, way, List.pairwise_map.mpr (ascending.imp fun {a b} less same => ?_)⟩
    rw [same] at less
    exact Nat.lt_irrefl _ less

/-- An instance of a module. -/
def instanceOf (name type : String) : Cell := ⟨name, type, ∅, ∅⟩

/-- A module `top` with `a` and `b` inside it, and `leaf` inside of both, twice inside of `a`. -/
def diamond : Design where
  modules := ⟨[
    ⟨"\\top", ∅, ⟨[instanceOf "\\u0" "\\a", instanceOf "\\u1" "\\b"], by decide⟩, [], []⟩,
    ⟨"\\b", ∅, ⟨[instanceOf "\\u0" "\\leaf"], by decide⟩, [], []⟩,
    ⟨"\\a", ∅, ⟨[instanceOf "\\u0" "\\leaf", instanceOf "\\u1" "\\leaf"], by decide⟩, [], []⟩,
    .new "\\leaf"], by decide⟩
  top := none
  selection := .everything

theorem index_parents_diamond : ∃ index, diamond.index = .ok index ∧
    ("\\leaf", "\\a") ∈ index.parents ∧ "\\leaf" ∈ index.shared ∧ "\\a" ∉ index.shared ∧
      index.order.idxOf "\\leaf" < index.order.idxOf "\\a" := by
  have placed : diamond.instanceGraph.order? = some ["\\leaf", "\\a", "\\b", "\\top"] := by
    decide +kernel
  have nonempty : diamond.selectedModules ≠ [] :=
    List.isEmpty_eq_false_iff.mp (by decide +kernel)
  have isModule : (diamond.module? "\\leaf").isSome = true := by decide +kernel
  have holders : (diamond.holders "\\leaf").map (·.name) = ["\\b", "\\a"] := by decide +kernel
  have holder : (diamond.holders "\\a").map (·.name) = ["\\top"] := by decide +kernel
  obtain ⟨index, built, -⟩ := index_of_order? nonempty placed
  obtain ⟨-, listed, -, last, shared, behind, -⟩ := index_parents built
  have isParent : index.parent? "\\leaf" = some "\\a" := by
    rw [last _ isModule, ← List.getLast?_map, holders]
    rfl
  refine ⟨index, built, (listed _ _).mpr isParent, (shared _).mpr ⟨isModule, ?_⟩, fun two => ?_,
    (behind _ _ isParent).2⟩
  · have b : "\\b" ∈ (diamond.holders "\\leaf").map (·.name) := by rw [holders]; decide
    have a : "\\a" ∈ (diamond.holders "\\leaf").map (·.name) := by rw [holders]; decide
    obtain ⟨m, hm, isB⟩ := List.mem_map.mp b
    obtain ⟨m', hm', isA⟩ := List.mem_map.mp a
    exact ⟨m, hm, m', hm', by rw [isA, isB]; decide⟩
  · obtain ⟨-, m, hm, m', hm', apart⟩ := (shared _).mp two
    have only : ∀ m ∈ diamond.holders "\\a", m.name = "\\top" := by
      intro m hm
      have named := List.mem_map_of_mem (f := fun m : Module => m.name) hm
      rw [holder] at named
      exact List.mem_singleton.mp named
    exact apart ((only m hm).trans (only m' hm').symm)

end Design

end NearestMux
