import Mathlib.Data.List.Forall2
import NearestMux.Hierarchy.Index
import NearestMux.Proofs.Hierarchy.Graph

/-!
# The skeleton of a design — what an index reads

An index is made of names: the names of the selected modules, and for each module the names of those
that its selected cells put inside it, cell by cell. Two designs with the same skeleton have the
same index, or fail to have one in the same way (`Design.SameSkeleton.index_eq`). Wires,
connections, processes and what is bound to ports are not looked at.

The modules of the two designs are paired by a relation. Of a pair it is asked that the names are
the same and that what stands inside is paired in turn. Modules that are not met need no partner.

This is about the index to the letter, the order in which nodes and edges were met included. What
depends on the set of modules alone is in `Proofs.Hierarchy.Order`.
-/

namespace NearestMux.Design

variable {d d' : Design} {R : Module → Module → Prop} {g : InstanceGraph}
  {work work' : List Module}

/-- Two designs have the same names, module by module and cell by cell. -/
structure SameSkeleton (R : Module → Module → Prop) (d d' : Design) : Prop where
  name : ∀ {m m'}, R m m' → m.name = m'.name
  inside : ∀ {m m'}, R m m' → List.Forall₂ R (d.instantiatedIn m) (d'.instantiatedIn m')
  selected : List.Forall₂ R d.selectedModules d'.selectedModules

/-- Paired modules are met alike, and those that are found are paired again. -/
theorem meetInner_paired (named : ∀ {m m'}, R m m' → m.name = m'.name)
    (paired : List.Forall₂ R work work') (outer : String) :
    (meetInner outer g work).1 = (meetInner outer g work').1 ∧
      List.Forall₂ R (meetInner outer g work).2 (meetInner outer g work').2 := by
  induction paired generalizing g with
  | nil => exact ⟨rfl, .nil⟩
  | cons first _ ih =>
    unfold meetInner
    rw [named first]
    obtain ⟨graph, found⟩ := @ih (g.addEdge ⟨_, outer⟩)
    refine ⟨graph, ?_⟩
    dsimp only
    split
    · exact found
    · exact .cons first found

theorem SameSkeleton.meetAll (same : d.SameSkeleton R d') (fuel : Nat)
    (paired : List.Forall₂ R work work') : d.meetAll fuel g work = d'.meetAll fuel g work' := by
  induction fuel generalizing g work work' with
  | zero => rfl
  | succ fuel ih =>
    cases paired with
    | nil => rfl
    | @cons m m' rest rest' first others =>
      rw [Design.meetAll, Design.meetAll, same.name first]
      have met := meetInner_paired (g := g.addNode m'.name) same.name (same.inside first) m'.name
      dsimp only
      rw [met.1]
      exact ih (List.rel_append others met.2)

theorem SameSkeleton.instanceGraph_eq (same : d.SameSkeleton R d') :
    d.instanceGraph = d'.instanceGraph := by
  -- the designs need not have the same number of modules, so both get the fuel of the two
  let fuel := d.selectedModules.length + d.modules.size + d'.modules.size
  have enough : d.selectedModules.length + d.modules.size ≤ fuel := Nat.le_add_right _ _
  have enough' : d'.selectedModules.length + d'.modules.size ≤ fuel := by
    rw [← same.selected.length_eq]
    omega
  calc d.instanceGraph = d.meetAll fuel .empty d.selectedModules :=
        (meetAll_eq_instanceGraph enough).symm
    _ = d'.meetAll fuel .empty d'.selectedModules := same.meetAll fuel same.selected
    _ = d'.instanceGraph := meetAll_eq_instanceGraph enough'

theorem SameSkeleton.instances_eq (same : d.SameSkeleton R d') : d.instances = d'.instances := by
  have made : List.Forall₂ Eq d.instances d'.instances := by
    refine List.rel_flatMap same.selected fun m m' pair => ?_
    refine List.rel_map (fun i i' inner => ?_) (same.inside pair)
    rw [same.name inner, same.name pair]
  rwa [List.forall₂_eq_eq_eq] at made

/-- **Designs with the same skeleton have the same index**, or fail to have one in the same way. -/
theorem SameSkeleton.index_eq (same : d.SameSkeleton R d') : d.index = d'.index := by
  have empty : d.selectedModules.isEmpty = d'.selectedModules.isEmpty := by
    rw [Bool.eq_iff_iff, List.isEmpty_iff_length_eq_zero, List.isEmpty_iff_length_eq_zero,
      same.selected.length_eq]
  unfold index
  rw [empty, same.instanceGraph_eq, same.instances_eq]

end NearestMux.Design
