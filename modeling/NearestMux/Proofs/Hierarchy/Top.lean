import NearestMux.Proofs.Hierarchy.Parents

/-!
# The top of a hierarchy

A design whose top is not named has one all the same when just one of its modules is instantiated by
no cell. That is found by looking at the types of all cells, and nothing is asked of how the modules
stand inside one another. The order of an index is made the other way round, from the innermost
modules outwards. This module says that the two agree when everything is selected
(`Design.index_top`): the top is the last module of the order, and every other one stands inside it
at some depth.

Both come from one fact: whatever instantiates a module stands behind it in the order. So the last
module of the order is instantiated by none, and whoever goes outwards from a module, to any that
instantiates it, comes to one that is instantiated by none (`Design.exists_root_above`). Where there
is only one such module, both are that one.
-/

namespace NearestMux

namespace Design

variable {d : Design} {m outer : Module} {c : Cell} {index : HierarchyIndex} {order : List String}
  {name : String}

/-- A module that no cell of the design instantiates, selected or not. -/
structure IsRoot (d : Design) (m : Module) : Prop where
  isModule : m ∈ d.modules.toList
  uninstantiated : ∀ outer ∈ d.modules.toList, ∀ c ∈ outer.cells.toList, c.type ≠ m.name

theorem mem_cellTypes_iff :
    name ∈ d.cellTypes ↔ ∃ outer ∈ d.modules.toList, ∃ c ∈ outer.cells.toList, c.type = name := by
  simp only [cellTypes, List.mem_flatMap, List.mem_map]

theorem mem_roots_iff : m ∈ d.roots ↔ d.IsRoot m := by
  rw [roots, List.mem_filter, Bool.not_eq_true', ← Bool.not_eq_true, List.contains_iff_mem,
    mem_cellTypes_iff]
  constructor
  · rintro ⟨isModule, uninstantiated⟩
    exact ⟨isModule, fun outer houter c hc same => uninstantiated ⟨outer, houter, c, hc, same⟩⟩
  · rintro ⟨isModule, uninstantiated⟩
    refine ⟨isModule, ?_⟩
    rintro ⟨outer, houter, c, hc, same⟩
    exact uninstantiated outer houter c hc same

theorem nodup_roots (d : Design) : d.roots.Nodup :=
  (List.Nodup.of_map _ d.modules.nodup).filter _

/-- A design whose top is not named has the module as its top that alone is instantiated by none. -/
theorem topModule?_eq_some_iff (unnamed : d.top = none) :
    d.topModule? = some m ↔ d.IsRoot m ∧ ∀ other, d.IsRoot other → other = m := by
  have only : d.topModule? = some m ↔ d.roots = [m] := by
    rw [topModule?, unnamed]
    dsimp only
    split
    · next one => rw [one, Option.some.injEq, List.singleton_inj]
    · next several => exact ⟨nofun, fun one => absurd one (several m)⟩
  simp only [only, ← mem_roots_iff]
  constructor
  · intro one
    simp only [one, List.mem_singleton]
    exact ⟨trivial, fun _ same => same⟩
  · rintro ⟨isRoot, alone⟩
    exact List.perm_singleton.mp ((List.perm_ext_iff_of_nodup d.nodup_roots
      (List.nodup_singleton m)).mpr fun other =>
        ⟨fun h => List.mem_singleton.mpr (alone other h),
          fun h => List.mem_singleton.mp h ▸ isRoot⟩)

/-! ## Where everything is selected -/

theorem inHierarchy_of_full (full : d.selection.full = true) (hm : m ∈ d.modules.toList) :
    d.InHierarchy m.name :=
  .selected (List.mem_filter.mpr ⟨hm, by rw [Selection.hasModule, full]; rfl⟩)

theorem standsIn_of_full (full : d.selection.full = true) (hm : m ∈ d.modules.toList)
    (houter : outer ∈ d.modules.toList) (hc : c ∈ outer.cells.toList) (isType : c.type = m.name) :
    d.StandsIn m.name outer.name := by
  have selected : c ∈ d.selectedCells outer :=
    d.mem_selectedCells.mpr ⟨hc, by rw [Selection.hasMember, full]; rfl⟩
  refine ⟨outer, d.module?_eq_some_iff.mpr ⟨houter, rfl⟩, ⟨c, selected, isType⟩, ?_⟩
  rw [d.module?_eq_some_iff.mpr ⟨hm, rfl⟩]
  rfl

/-- A module that is no root stands inside another one. -/
theorem exists_standsIn_of_not_isRoot (full : d.selection.full = true) (hm : m ∈ d.modules.toList)
    (inner : ¬ d.IsRoot m) : ∃ outer ∈ d.modules.toList, d.StandsIn m.name outer.name := by
  by_cases instantiated :
      ∃ outer ∈ d.modules.toList, ∃ c ∈ outer.cells.toList, c.type = m.name
  · obtain ⟨outer, houter, c, hc, isType⟩ := instantiated
    exact ⟨outer, houter, standsIn_of_full full hm houter hc isType⟩
  · exact absurd ⟨hm, fun outer houter c hc isType => instantiated ⟨outer, houter, c, hc, isType⟩⟩
      inner

/-! ## Outwards along an order -/

/-- From every module one comes outwards to a root. -/
theorem exists_root_above (wanted : d.IsHierarchyOrder order) (full : d.selection.full = true)
    (hm : m ∈ d.modules.toList) :
    ∃ root, d.IsRoot root ∧ Relation.ReflTransGen d.StandsIn m.name root.name := by
  -- by induction on how much of the order is behind the module
  induction left : order.length - order.idxOf m.name using Nat.strong_induction_on
    generalizing m with
  | _ left ih =>
    by_cases isRoot : d.IsRoot m
    · exact ⟨m, isRoot, .refl⟩
    · obtain ⟨outer, houter, stands⟩ := exists_standsIn_of_not_isRoot full hm isRoot
      have placed := (wanted.mem_iff _).mpr (inHierarchy_of_full full houter)
      have less := wanted.inner_first _ _ placed stands
      have within := List.idxOf_lt_length_iff.mpr placed
      obtain ⟨root, isRoot, above⟩ := ih _ (by omega) houter rfl
      exact ⟨root, isRoot, .head stands above⟩

/-- The last module of an order is a root. -/
theorem isRoot_of_getLast? (wanted : d.IsHierarchyOrder order) (full : d.selection.full = true)
    (hm : m ∈ d.modules.toList) (last : order.getLast? = some m.name) : d.IsRoot m where
  isModule := hm
  uninstantiated outer houter c hc isType := by
    have placed := (wanted.mem_iff _).mpr (inHierarchy_of_full full houter)
    have less := wanted.inner_first _ _ placed (standsIn_of_full full hm houter hc isType)
    have within := List.idxOf_lt_length_iff.mpr placed
    obtain ⟨before, rfl⟩ := List.getLast?_eq_some_iff.mp last
    -- nothing stands behind the last one, and no module stands twice
    have first : m.name ∉ before := fun twice =>
      (List.nodup_append.mp wanted.nodup).2.2 _ twice _ (List.mem_singleton_self _) rfl
    rw [List.idxOf_append_of_notMem first, List.idxOf_cons_self] at less
    rw [List.length_append, List.length_singleton] at within
    omega

theorem InHierarchy.exists_module (belongs : d.InHierarchy name) :
    ∃ m ∈ d.modules.toList, m.name = name := by
  cases belongs with
  | @selected m isSelected => exact ⟨m, (List.mem_filter.mp isSelected).1, rfl⟩
  | inside stands _ =>
    obtain ⟨_, -, -, isModule⟩ := stands
    obtain ⟨m, found⟩ := Option.isSome_iff_exists.mp isModule
    exact ⟨m, d.module?_eq_some_iff.mp found⟩

/-- The order of an index has a last module, since something is selected. -/
theorem exists_getLast_module (built : d.index = .ok index) :
    ∃ m ∈ d.modules.toList, index.order.getLast? = some m.name := by
  obtain ⟨nonempty, -⟩ := order?_of_index built
  obtain ⟨name, belongs⟩ := selectedModules_ne_nil_iff.mp nonempty
  have placed := (mem_order_iff built).mpr belongs
  have isLast := List.getLast?_eq_some_getLast (List.ne_nil_of_mem placed)
  obtain ⟨m, hm, named⟩ := ((mem_order_iff built).mp (List.mem_of_getLast? isLast)).exists_module
  exact ⟨m, hm, named ▸ isLast⟩

/-- **The top.** In a design that is selected as a whole, whose top is not named and whose hierarchy
can be put in order, some module is instantiated by no cell, and the top is the module that alone
is. A design that has a top has it as the last module of the order, and every other module stands
inside it, at some depth. -/
theorem index_top (unnamed : d.top = none) (full : d.selection.full = true)
    (built : d.index = .ok index) :
    (∃ m, d.IsRoot m) ∧
    (∀ m, d.topModule? = some m ↔ d.IsRoot m ∧ ∀ other, d.IsRoot other → other = m) ∧
    ∀ m, d.topModule? = some m → index.order.getLast? = some m.name ∧
      ∀ other ∈ d.modules.toList, other ≠ m → Relation.TransGen d.StandsIn other.name m.name := by
  have wanted := isHierarchyOrder_of_index built
  obtain ⟨last, hlast, isLast⟩ := exists_getLast_module built
  have lastIsRoot := isRoot_of_getLast? wanted full hlast isLast
  refine ⟨⟨last, lastIsRoot⟩, fun m => topModule?_eq_some_iff unnamed, fun m isTop => ?_⟩
  obtain ⟨isRoot, alone⟩ := (topModule?_eq_some_iff unnamed).mp isTop
  refine ⟨alone last lastIsRoot ▸ isLast, fun other hother differ => ?_⟩
  obtain ⟨root, rootIsRoot, above⟩ := exists_root_above wanted full hother
  rw [alone root rootIsRoot] at above
  rcases Relation.reflTransGen_iff_eq_or_transGen.mp above with same | inside
  · exact absurd (eq_of_name_eq hother isRoot.isModule same.symm) differ
  · exact inside

theorem index_top_diamond : diamond.top = none ∧ diamond.selection.full = true ∧
    ∃ index m, diamond.index = .ok index ∧ diamond.topModule? = some m ∧ m.name = "\\top" ∧
      index.order.getLast? = some "\\top" ∧
        Relation.TransGen diamond.StandsIn "\\leaf" "\\top" := by
  have placed : diamond.instanceGraph.order? = some ["\\leaf", "\\a", "\\b", "\\top"] := by
    decide +kernel
  have nonempty : diamond.selectedModules ≠ [] :=
    List.isEmpty_eq_false_iff.mp (by decide +kernel)
  have named : diamond.topModule?.map (·.name) = some "\\top" := by decide +kernel
  obtain ⟨index, built, -⟩ := index_of_order? nonempty placed
  obtain ⟨m, isTop, isNamed⟩ := Option.map_eq_some_iff.mp named
  obtain ⟨isLast, inside⟩ := (index_top rfl rfl built).2.2 m isTop
  have hleaf : Module.new "\\leaf" ∈ diamond.modules.toList := by simp [diamond]
  have differ : Module.new "\\leaf" ≠ m := by
    rintro rfl
    exact absurd isNamed (by decide)
  exact ⟨rfl, rfl, index, m, built, isTop, isNamed, isNamed ▸ isLast,
    isNamed ▸ inside _ hleaf differ⟩

end Design

end NearestMux
