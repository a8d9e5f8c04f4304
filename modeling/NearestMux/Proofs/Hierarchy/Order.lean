import Mathlib.Data.Fintype.Card
import Mathlib.Data.Set.Finite.Basic
import Mathlib.Data.String.Basic
import Mathlib.Order.WellFounded
import NearestMux.Hierarchy.Index
import NearestMux.Proofs.Hierarchy.Graph

/-!
# The order of a hierarchy is the least one

`Hierarchy.Order` places one module at a time, of those that are ready the one with the least name.
`Design.IsHierarchyOrder` says what is wanted of an order without saying how it is made: it has the
modules of the hierarchy, each once, and what stands inside a module stands before it.

`Design.index_order` is the agreement: the order of an index is such an order, and of all of them it
is the least, where lists of names compare as words do and names by the code points of their
characters. A hierarchy has one least order, so the index of another design with the same hierarchy
has the same one, however its modules and cells arrived.

No exchange of neighbours is needed for the minimum. Two orders that agree up to a place have the
same modules left there, so both choose among the same ready ones, and the index chose the least
(`InstanceGraph.place_le`).

An order is missing only if some module stands inside itself (`InstanceGraph.exists_circle`): among
finitely many modules, of which each has another one inside, some circle must close.
-/

namespace NearestMux

/-! ## The least of some names -/

/-- Only a row without names has no least one. -/
theorem leastName?_eq_none_iff {names : List String} : leastName? names = none ↔ names = [] := by
  cases names <;> simp [leastName?]

theorem foldl_least (first : String) (rest : List String) :
    let least := rest.foldl (fun least s => if s < least then s else least) first
    least ∈ first :: rest ∧ ∀ name ∈ first :: rest, least ≤ name := by
  dsimp only
  induction rest generalizing first with
  | nil => simp
  | cons second rest ih =>
    rw [List.foldl_cons]
    split
    · next less =>
      obtain ⟨mem, least⟩ := ih second
      refine ⟨List.mem_cons_of_mem _ mem, List.forall_mem_cons.mpr ⟨?_, least⟩⟩
      exact (least second List.mem_cons_self).trans less.le
    · next notLess =>
      obtain ⟨mem, least⟩ := ih first
      obtain ⟨leFirst, later⟩ := List.forall_mem_cons.mp least
      refine ⟨?_, List.forall_mem_cons.mpr ⟨leFirst, List.forall_mem_cons.mpr ⟨?_, later⟩⟩⟩
      · rcases List.mem_cons.mp mem with same | mem
        · exact List.mem_cons.mpr (.inl same)
        · exact List.mem_cons_of_mem _ (List.mem_cons_of_mem _ mem)
      · exact leFirst.trans (not_lt.mp notLess)

/-- The least name is one of the row, and none of the row is smaller. -/
theorem leastName?_spec {names : List String} {name : String} (h : leastName? names = some name) :
    name ∈ names ∧ ∀ other ∈ names, name ≤ other := by
  cases names with
  | nil => cases h
  | cons first rest =>
    cases h
    exact foldl_least first rest

namespace InstanceGraph

variable {g : InstanceGraph} {edges : List Instantiation} {left order other : List String}
  {name : String} {count : Nat}

/-- A module is ready when nothing inside it is left to be placed. -/
theorem isReady_iff :
    isReady edges left name = true ↔ ∀ e ∈ edges, e.outer = name → e.inner ∉ left := by
  simp [isReady]

/-! ## The ways to place what is left -/

/-- A way to place the modules that are left: next comes one that is ready, whichever. -/
inductive Places (edges : List Instantiation) : List String → List String → Prop where
  | nil : Places edges [] []
  | cons {left rest : List String} {name : String} (isLeft : name ∈ left)
      (ready : isReady edges left name = true) (others : Places edges (left.erase name) rest) :
      Places edges left (name :: rest)

/-- What is placed, is placed as the rule wants it: the least ready name, over and over. -/
theorem places_of_place (placed : place edges count left = some order) :
    Places edges left order := by
  induction count generalizing left order with
  | zero =>
    rw [place] at placed
    split at placed
    · next none =>
      cases placed
      rw [List.isEmpty_iff.mp none]
      exact .nil
    · cases placed
  | succ count ih =>
    rw [place] at placed
    split at placed
    · next name least =>
      obtain ⟨rest, others, rfl⟩ := Option.map_eq_some_iff.mp placed
      obtain ⟨isLeft, ready⟩ := List.mem_filter.mp (leastName?_spec least).1
      exact .cons isLeft ready (ih others)
    · cases placed

/-- Of all ways to place what is left, taking the least name each time is the least. -/
theorem place_le (placed : place edges count left = some order)
    (places : Places edges left other) : order ≤ other := by
  induction count generalizing left order other with
  | zero =>
    rw [place] at placed
    split at placed
    · cases placed
      exact not_lt.mp (List.not_lt_nil other)
    · cases placed
  | succ count ih =>
    rw [place] at placed
    split at placed
    · next name least =>
      obtain ⟨rest, rest_placed, rfl⟩ := Option.map_eq_some_iff.mp placed
      obtain ⟨isLeft, least⟩ := leastName?_spec least
      cases places with
      | nil => cases isLeft
      | @cons _ rest' name' isLeft' ready' others =>
        rcases (least name' (List.mem_filter.mpr ⟨isLeft', ready'⟩)).lt_or_eq with less | rfl
        · exact (List.cons_lt_cons_iff.mpr (.inl less)).le
        · exact List.cons_le_cons name (ih rest_placed others)
    · cases placed

/-- The ways to place what is left are the orders of it that have every inner module in front of its
outer one. -/
theorem places_iff (nodup : left.Nodup) : Places edges left order ↔
    order.Perm left ∧
      ∀ e ∈ edges, e.inner ∈ left → e.outer ∈ left → order.idxOf e.inner < order.idxOf e.outer := by
  constructor
  · intro places
    induction places with
    | nil => exact ⟨.refl _, fun _ _ h => absurd h List.not_mem_nil⟩
    | @cons left rest name isLeft ready others ih =>
      obtain ⟨perm, before⟩ := ih (nodup.erase name)
      refine ⟨List.cons_perm_iff_perm_erase.mpr ⟨isLeft, perm⟩, fun e he inner outer => ?_⟩
      have differ : name ≠ e.outer := fun same => isReady_iff.mp ready e he same.symm inner
      rw [List.idxOf_cons_ne rest differ]
      by_cases same : name = e.inner
      · rw [← same, List.idxOf_cons_self]
        exact Nat.succ_pos _
      · rw [List.idxOf_cons_ne rest same]
        refine Nat.succ_lt_succ (before e he ?_ ?_)
        · exact (List.mem_erase_of_ne (Ne.symm same)).mpr inner
        · exact (List.mem_erase_of_ne (Ne.symm differ)).mpr outer
  · rintro ⟨perm, before⟩
    induction order generalizing left with
    | nil =>
      rw [List.nil_perm.mp perm]
      exact .nil
    | cons name rest ih =>
      obtain ⟨isLeft, permRest⟩ := List.cons_perm_iff_perm_erase.mp perm
      refine .cons isLeft (isReady_iff.mpr fun e he same inner => ?_) (ih (nodup.erase name)
        permRest fun e he inner outer => ?_)
      · have first := before e he inner (same ▸ isLeft)
        rw [same, List.idxOf_cons_self] at first
        exact Nat.not_lt_zero _ first
      · have differ : ∀ other ∈ left.erase name, name ≠ other := fun other h same =>
          nodup.not_mem_erase (same ▸ h)
        have later := before e he (List.mem_of_mem_erase inner) (List.mem_of_mem_erase outer)
        rw [List.idxOf_cons_ne rest (differ _ inner),
          List.idxOf_cons_ne rest (differ _ outer)] at later
        exact Nat.lt_of_succ_lt_succ later

/-! ## Circles -/

/-- One module stands inside another one along the edges, at any depth. -/
def Below (edges : List Instantiation) : String → String → Prop :=
  Relation.TransGen fun inner outer => ⟨inner, outer⟩ ∈ edges

/-- Where some modules are left and none of them is ready, one of them stands inside itself. -/
theorem exists_circle (nonempty : left ≠ [])
    (stuck : ∀ name ∈ left, isReady edges left name = false) :
    ∃ name ∈ left, Below edges name name := by
  by_contra none
  have trans : IsTrans {name // name ∈ left} fun a b => Below edges a b :=
    ⟨fun _ _ _ => Relation.TransGen.trans⟩
  have irrefl : Std.Irrefl fun a b : {name // name ∈ left} => Below edges a b :=
    ⟨fun a circle => none ⟨a, a.2, circle⟩⟩
  have finite : Finite {name // name ∈ left} := left.finite_toSet
  have descends := Finite.wellFounded_of_trans_of_irrefl
    fun a b : {name // name ∈ left} => Below edges a b
  obtain ⟨first, hfirst⟩ := List.exists_mem_of_ne_nil left nonempty
  obtain ⟨⟨name, isLeft⟩, -, least⟩ := descends.has_min Set.univ ⟨⟨first, hfirst⟩, trivial⟩
  have ready : isReady edges left name = true := isReady_iff.mpr fun e he same inner =>
    least ⟨e.inner, inner⟩ trivial (.single (same ▸ he))
  rw [stuck name isLeft] at ready
  cases ready

/-- When the placing gets stuck, one of the names that are left is below itself. -/
theorem exists_circle_of_place (all : left.length = count)
    (none : place edges count left = none) : ∃ name ∈ left, Below edges name name := by
  induction count generalizing left with
  | zero =>
    rw [place, List.eq_nil_of_length_eq_zero all] at none
    cases none
  | succ count ih =>
    rw [place] at none
    split at none
    · next name least =>
      have isLeft := (List.mem_filter.mp (leastName?_spec least).1).1
      have others : (left.erase name).length = count := by
        rw [List.length_erase_of_mem isLeft, all, Nat.add_sub_cancel]
      obtain ⟨other, isLeft, circle⟩ := ih others (Option.map_eq_none_iff.mp none)
      exact ⟨other, List.mem_of_mem_erase isLeft, circle⟩
    · next noLeast =>
      have nonempty : left ≠ [] := List.ne_nil_of_length_eq_add_one all
      have noneReady := List.filter_eq_nil_iff.mp (leastName?_eq_none_iff.mp noLeast)
      exact exists_circle nonempty fun name isLeft => Bool.eq_false_iff.mpr (noneReady name isLeft)

/-- So a graph without an order has a node below itself. -/
theorem exists_circle_of_order? (none : g.order? = none) :
    ∃ name ∈ g.nodes, Below g.edges name name :=
  exists_circle_of_place rfl none

end InstanceGraph

/-! ## The order of a design -/

namespace Design

variable {d d' : Design} {index : HierarchyIndex} {order other : List String} {inner outer : String}

/-- What is wanted of an order: it has the modules of the hierarchy, each once, and what stands
inside a module stands before it. -/
structure IsHierarchyOrder (d : Design) (order : List String) : Prop where
  nodup : order.Nodup
  mem_iff : ∀ name, name ∈ order ↔ d.InHierarchy name
  inner_first : ∀ inner outer, outer ∈ order → d.StandsIn inner outer →
    order.idxOf inner < order.idxOf outer

/-- Two designs have the same hierarchy: the same modules belong to it, and the same stand inside
them. -/
structure SameHierarchy (d d' : Design) : Prop where
  modules : ∀ name, d.InHierarchy name ↔ d'.InHierarchy name
  inside : ∀ inner outer, d.InHierarchy outer → (d.StandsIn inner outer ↔ d'.StandsIn inner outer)

/-- Two designs have the same modules with the same cells under one selection; the modules arrived
in any order, and so did the cells of each module. -/
structure Rearranged (d d' : Design) : Prop where
  selection : d'.selection = d.selection
  modules : ∀ name, Option.Rel (fun m m' : Module => m.cells.toList.Perm m'.cells.toList)
    (d.module? name) (d'.module? name)

/-- Inside the hierarchy, the edges of the graph say what stands inside what. -/
theorem below_iff (belongs : d.InHierarchy outer) :
    InstanceGraph.Below d.instanceGraph.edges inner outer ↔
      Relation.TransGen d.StandsIn inner outer := by
  refine ⟨fun below => Relation.TransGen.mono (fun _ _ he => ?_) _ _ below, fun stands => ?_⟩
  · exact (mem_edges_instanceGraph.mp he).1
  · induction stands with
    | single stands => exact .single (mem_edges_instanceGraph.mpr ⟨stands, belongs⟩)
    | tail _ stands ih =>
      exact (ih (.inside stands belongs)).tail (mem_edges_instanceGraph.mpr ⟨stands, belongs⟩)

/-- The orders of a hierarchy are the rows that the placing of its graph may give. -/
theorem isHierarchyOrder_iff : d.IsHierarchyOrder order ↔
    InstanceGraph.Places d.instanceGraph.edges d.instanceGraph.nodes order := by
  have tidy := d.tidy_instanceGraph
  rw [InstanceGraph.places_iff tidy.nodes]
  constructor
  · intro wanted
    refine ⟨?_, fun e he _ isNode => ?_⟩
    · rw [List.perm_ext_iff_of_nodup wanted.nodup tidy.nodes]
      exact fun name => (wanted.mem_iff name).trans mem_nodes_instanceGraph.symm
    · obtain ⟨stands, belongs⟩ := mem_edges_instanceGraph.mp he
      exact wanted.inner_first e.inner e.outer ((wanted.mem_iff _).mpr belongs) stands
  · rintro ⟨perm, before⟩
    have mem_iff : ∀ name, name ∈ order ↔ d.InHierarchy name := fun name =>
      perm.mem_iff.trans mem_nodes_instanceGraph
    refine ⟨perm.nodup_iff.mpr tidy.nodes, mem_iff, fun inner outer isNode stands => ?_⟩
    have he := mem_edges_instanceGraph.mpr ⟨stands, (mem_iff outer).mp isNode⟩
    exact before _ he (tidy.inner _ he) (tidy.outer _ he)

/-- In an order whatever stands inside a module, at any depth, stands before it. -/
theorem IsHierarchyOrder.idxOf_lt (wanted : d.IsHierarchyOrder order)
    (stands : Relation.TransGen d.StandsIn inner outer) (mem : outer ∈ order) :
    order.idxOf inner < order.idxOf outer := by
  induction stands with
  | single stands => exact wanted.inner_first _ _ mem stands
  | @tail middle outer _ stands ih =>
    have later := wanted.inner_first _ _ mem stands
    exact (ih (List.idxOf_lt_length_iff.mp (later.trans_le List.idxOf_le_length))).trans later

/-- A hierarchy that has an order has no module inside itself. -/
theorem IsHierarchyOrder.not_circle (wanted : d.IsHierarchyOrder order)
    (belongs : d.InHierarchy inner) : ¬ Relation.TransGen d.StandsIn inner inner := fun circle =>
  Nat.lt_irrefl _ (wanted.idxOf_lt circle ((wanted.mem_iff _).mpr belongs))

/-! ## The order of an index -/

/-- An index has the order of the graph, and comes of a selection that is not empty. -/
theorem order?_of_index (found : d.index = .ok index) :
    d.selectedModules ≠ [] ∧ d.instanceGraph.order? = some index.order := by
  unfold Design.index at found
  split at found
  · cases found
  · next nonempty =>
    dsimp only at found
    split at found
    · next placed =>
      cases found
      exact ⟨fun none => nonempty (List.isEmpty_iff.mpr none), placed⟩
    · cases found

theorem isHierarchyOrder_of_index (found : d.index = .ok index) : d.IsHierarchyOrder index.order :=
  isHierarchyOrder_iff.mpr (InstanceGraph.places_of_place (order?_of_index found).2)

theorem index_of_order? (nonempty : d.selectedModules ≠ [])
    (placed : d.instanceGraph.order? = some order) :
    ∃ index, d.index = .ok index ∧ index.order = order := by
  have notEmpty : d.selectedModules.isEmpty = false := List.isEmpty_eq_false_iff.mpr nonempty
  refine ⟨⟨d.instanceGraph, order, d.instances⟩, ?_, rfl⟩
  simp only [Design.index, notEmpty, Bool.false_eq_true, if_false, placed]

/-- A selection is empty just when nothing belongs to its hierarchy. -/
theorem selectedModules_ne_nil_iff :
    d.selectedModules ≠ [] ↔ ∃ name, d.InHierarchy name := by
  constructor
  · intro nonempty
    obtain ⟨m, hm⟩ := List.exists_mem_of_ne_nil _ nonempty
    exact ⟨m.name, .selected hm⟩
  · rintro ⟨name, belongs⟩
    induction belongs with
    | selected isSelected => exact List.ne_nil_of_mem isSelected
    | inside _ _ ih => exact ih

/-- An order speaks only of what belongs and of what stands inside what. -/
theorem SameHierarchy.isHierarchyOrder (same : d.SameHierarchy d')
    (wanted : d.IsHierarchyOrder order) : d'.IsHierarchyOrder order where
  nodup := wanted.nodup
  mem_iff := fun name => (wanted.mem_iff name).trans (same.modules name)
  inner_first := fun inner outer mem stands =>
    wanted.inner_first inner outer mem ((same.inside _ _ ((wanted.mem_iff _).mp mem)).mpr stands)

theorem SameHierarchy.symm (same : d.SameHierarchy d') : d'.SameHierarchy d where
  modules := fun name => (same.modules name).symm
  inside := fun inner outer belongs =>
    (same.inside inner outer ((same.modules outer).mpr belongs)).symm

/-- A design with the hierarchy of one that has an index has an index with the same order. -/
theorem SameHierarchy.exists_index (same : d.SameHierarchy d') (found : d.index = .ok index) :
    ∃ index', d'.index = .ok index' ∧ index'.order = index.order := by
  obtain ⟨nonempty, placed⟩ := order?_of_index found
  have wanted := isHierarchyOrder_of_index found
  have wanted' := same.isHierarchyOrder wanted
  obtain ⟨name, belongs⟩ := selectedModules_ne_nil_iff.mp nonempty
  have nonempty' := selectedModules_ne_nil_iff.mpr ⟨name, (same.modules name).mp belongs⟩
  cases placed' : d'.instanceGraph.order? with
  | none =>
    obtain ⟨name, isNode, circle⟩ := InstanceGraph.exists_circle_of_order? placed'
    have belongs := mem_nodes_instanceGraph.mp isNode
    exact absurd ((below_iff belongs).mp circle) (wanted'.not_circle belongs)
  | some order =>
    obtain ⟨index', found', rfl⟩ := index_of_order? nonempty' placed'
    refine ⟨index', found', le_antisymm ?_ ?_⟩
    · exact InstanceGraph.place_le placed' (isHierarchyOrder_iff.mp wanted')
    · have back := same.symm.isHierarchyOrder (isHierarchyOrder_of_index found')
      exact InstanceGraph.place_le placed (isHierarchyOrder_iff.mp back)

/-! ## What the order depends on -/

theorem Rearranged.symm (same : d.Rearranged d') : d'.Rearranged d where
  selection := same.selection.symm
  modules := fun name => by
    have cells := same.modules name
    generalize d.module? name = before, d'.module? name = behind at cells ⊢
    cases cells with
    | none => exact .none
    | some perm => exact .some perm.symm

/-- What stands inside the modules of a design stands inside those of another one, which has modules
of the same names, with cells of the same names and types, under the same selection. -/
structure RetainedBy (d d' : Design) : Prop where
  selection : d'.selection = d.selection
  modules : ∀ {name m}, d.module? name = some m → ∃ m', d'.module? name = some m' ∧
    ∀ c ∈ m.cells.toList, ∃ c' ∈ m'.cells.toList, c'.name = c.name ∧ c'.type = c.type

theorem RetainedBy.standsIn (retained : d.RetainedBy d') (stands : d.StandsIn inner outer) :
    d'.StandsIn inner outer := by
  obtain ⟨m, found, ⟨c, hc, isType⟩, isModule⟩ := stands
  obtain ⟨m', found', cells⟩ := retained.modules found
  obtain ⟨i, inside⟩ := Option.isSome_iff_exists.mp isModule
  obtain ⟨i', inside', -⟩ := retained.modules inside
  obtain ⟨arrived, selected⟩ := d.mem_selectedCells.mp hc
  obtain ⟨c', arrived', cellNamed, sameType⟩ := cells c arrived
  have named : m'.name = m.name :=
    (d'.module?_eq_some_iff.mp found').2.trans (d.module?_eq_some_iff.mp found).2.symm
  have selected' : c' ∈ d'.selectedCells m' := by
    refine d'.mem_selectedCells.mpr ⟨arrived', ?_⟩
    rw [retained.selection, named, cellNamed]
    exact selected
  refine ⟨m', found', ⟨c', selected', sameType.trans isType⟩, ?_⟩
  rw [inside']
  rfl

/-- What belongs to a hierarchy belongs to one that retains it. -/
theorem RetainedBy.inHierarchy (retained : d.RetainedBy d') {name : String}
    (belongs : d.InHierarchy name) : d'.InHierarchy name := by
  induction belongs with
  | @selected m isSelected =>
    obtain ⟨arrived, selected⟩ := List.mem_filter.mp isSelected
    obtain ⟨m', found, -⟩ := retained.modules (d.module?_eq_some_iff.mpr ⟨arrived, rfl⟩)
    obtain ⟨arrived', named⟩ := d'.module?_eq_some_iff.mp found
    rw [← named]
    refine .selected (List.mem_filter.mpr ⟨arrived', ?_⟩)
    rw [retained.selection, named]
    exact selected
  | inside stands _ ih => exact .inside (retained.standsIn stands) ih

/-- Hierarchies that retain one another are the same. -/
theorem sameHierarchy_of_retainedBy (forth : d.RetainedBy d') (back : d'.RetainedBy d) :
    d.SameHierarchy d' where
  modules := fun _ => ⟨forth.inHierarchy, back.inHierarchy⟩
  inside := fun _ _ _ => ⟨forth.standsIn, back.standsIn⟩

/-- A rearrangement retains the hierarchy. -/
theorem Rearranged.retainedBy (same : d.Rearranged d') : d.RetainedBy d' where
  selection := same.selection
  modules := by
    intro name m found
    have cells := same.modules name
    rw [found] at cells
    generalize d'.module? name = behind at cells ⊢
    cases cells with
    | some perm => exact ⟨_, rfl, fun c arrived => ⟨c, perm.mem_iff.mp arrived, rfl, rfl⟩⟩

theorem Rearranged.sameHierarchy (same : d.Rearranged d') : d.SameHierarchy d' :=
  sameHierarchy_of_retainedBy same.retainedBy same.symm.retainedBy

/-- The order of an index has the modules of the hierarchy, each once and behind what stands inside
it; of all such orders it is the least. So it depends on the hierarchy alone, and not on how the
modules and the cells of a design arrived. -/
theorem index_order (found : d.index = .ok index) :
    d.IsHierarchyOrder index.order ∧
      (∀ other, d.IsHierarchyOrder other → index.order ≤ other) ∧
      (∀ d', d.SameHierarchy d' →
        ∃ index', d'.index = .ok index' ∧ index'.order = index.order) ∧
      ∀ d', d.Rearranged d' → ∃ index', d'.index = .ok index' ∧ index'.order = index.order := by
  obtain ⟨-, placed⟩ := order?_of_index found
  refine ⟨isHierarchyOrder_of_index found, fun other wanted => ?_,
    fun d' same => same.exists_index found, fun d' same => same.sameHierarchy.exists_index found⟩
  exact InstanceGraph.place_le placed (isHierarchyOrder_iff.mp wanted)

/-- A module `top` with two others inside it, `b` in front of `a`, and `leaf` inside of `a`. -/
def stairs : Design where
  modules := ⟨[⟨"\\top", ∅, ⟨[⟨"\\u0", "\\b", ∅, ∅⟩, ⟨"\\u1", "\\a", ∅, ∅⟩], by decide⟩, [], []⟩,
    ⟨"\\a", ∅, ⟨[⟨"\\u0", "\\leaf", ∅, ∅⟩], by decide⟩, [], []⟩,
    .new "\\b", .new "\\leaf"], by decide⟩
  top := none
  selection := ⟨false, ["\\top", "\\a"], []⟩

theorem index_order_stairs : ∃ index, stairs.index = .ok index ∧
    index.order = ["\\b", "\\leaf", "\\a", "\\top"] ∧ stairs.IsHierarchyOrder index.order ∧
      ∀ other, stairs.IsHierarchyOrder other → index.order ≤ other := by
  have placed : stairs.instanceGraph.order? = some ["\\b", "\\leaf", "\\a", "\\top"] := by
    decide +kernel
  have nonempty : stairs.selectedModules ≠ [] :=
    List.isEmpty_eq_false_iff.mp (by decide +kernel)
  obtain ⟨index, found, same⟩ := index_of_order? nonempty placed
  obtain ⟨ordered, least, -⟩ := index_order found
  exact ⟨index, found, same, ordered, least⟩

end Design

end NearestMux
