import Mathlib.Data.Finset.Card
import NearestMux.Hierarchy.Graph

/-!
# What the instantiation graph holds

`Hierarchy.Graph` meets the modules of a design one after the other. Here the same is said without
an order: which module stands inside which (`Design.StandsIn`), and which modules belong to the
hierarchy (`Design.InHierarchy`): the selected ones and what stands inside those that belong to it.

The graph holds just that, each node and each edge once (`Design.mem_nodes_instanceGraph`,
`Design.mem_edges_instanceGraph`). A module is a node as soon as an edge names it, so before it has
been looked at itself; what carries the proof is that every node was looked at already or waits
(`Design.Meeting`). Waiting cannot go on for ever, because a module is made to wait only when it is
no node yet.
-/

namespace NearestMux

/-! ## Nodes and edges -/

namespace InstanceGraph

variable {g : InstanceGraph} {e f : Instantiation} {name other : String}

/-- Each node and each edge stands once, and an edge leads from node to node. -/
structure Tidy (g : InstanceGraph) : Prop where
  nodes : g.nodes.Nodup
  edges : g.edges.Nodup
  inner : ∀ e ∈ g.edges, e.inner ∈ g.nodes
  outer : ∀ e ∈ g.edges, e.outer ∈ g.nodes

/-- The graph without nodes is tidy. -/
theorem tidy_empty : Tidy empty where
  nodes := List.nodup_nil
  edges := List.nodup_nil
  inner := List.forall_mem_nil _
  outer := List.forall_mem_nil _

theorem edges_addNode (g : InstanceGraph) (name : String) : (g.addNode name).edges = g.edges := by
  unfold addNode
  split <;> rfl

theorem mem_nodes_addNode : other ∈ (g.addNode name).nodes ↔ other ∈ g.nodes ∨ other = name := by
  unfold addNode
  split
  · next met =>
    rw [List.contains_iff_mem] at met
    exact ⟨Or.inl, fun h => h.elim id fun same => same ▸ met⟩
  · simp

/-- A node keeps a graph tidy. -/
theorem Tidy.addNode (tidy : Tidy g) (name : String) : Tidy (g.addNode name) where
  nodes := by
    unfold InstanceGraph.addNode
    split
    · exact tidy.nodes
    · next new =>
      rw [List.contains_iff_mem] at new
      exact Roster.nodup_append_singleton tidy.nodes new
  edges := by
    rw [edges_addNode]
    exact tidy.edges
  inner := fun e he => mem_nodes_addNode.mpr (.inl (tidy.inner e (edges_addNode g name ▸ he)))
  outer := fun e he => mem_nodes_addNode.mpr (.inl (tidy.outer e (edges_addNode g name ▸ he)))

theorem mem_nodes_addEdge :
    other ∈ (g.addEdge e).nodes ↔ other ∈ g.nodes ∨ other = e.inner ∨ other = e.outer := by
  have nodes : (g.addEdge e).nodes = ((g.addNode e.inner).addNode e.outer).nodes := by
    unfold addEdge
    dsimp only
    split <;> rfl
  rw [nodes, mem_nodes_addNode, mem_nodes_addNode, or_assoc]

theorem mem_edges_addEdge : f ∈ (g.addEdge e).edges ↔ f ∈ g.edges ∨ f = e := by
  unfold addEdge
  dsimp only
  split
  · next known =>
    rw [List.contains_iff_mem] at known
    refine ⟨fun h => .inl ?_, fun h => h.elim (fun h => ?_) fun same => same ▸ known⟩
    · rwa [edges_addNode, edges_addNode] at h
    · rwa [edges_addNode, edges_addNode]
  · rw [edges_addNode, edges_addNode]
    simp

/-- An edge keeps a graph tidy: it brings its ends along. -/
theorem Tidy.addEdge (tidy : Tidy g) (e : Instantiation) : Tidy (g.addEdge e) := by
  have both := (tidy.addNode e.inner).addNode e.outer
  have inner : ∀ f ∈ (g.addEdge e).edges, f.inner ∈ (g.addEdge e).nodes := by
    intro f hf
    rcases mem_edges_addEdge.mp hf with known | rfl
    · exact mem_nodes_addEdge.mpr (.inl (tidy.inner f known))
    · exact mem_nodes_addEdge.mpr (.inr (.inl rfl))
  have outer : ∀ f ∈ (g.addEdge e).edges, f.outer ∈ (g.addEdge e).nodes := by
    intro f hf
    rcases mem_edges_addEdge.mp hf with known | rfl
    · exact mem_nodes_addEdge.mpr (.inl (tidy.outer f known))
    · exact mem_nodes_addEdge.mpr (.inr (.inr rfl))
  refine ⟨?_, ?_, inner, outer⟩
  · unfold InstanceGraph.addEdge
    dsimp only
    split
    · exact both.nodes
    · exact both.nodes
  · unfold InstanceGraph.addEdge
    dsimp only
    split
    · exact both.edges
    · next new =>
      rw [List.contains_iff_mem] at new
      exact both.edges.append (List.nodup_singleton e) (List.disjoint_singleton.mpr new)

end InstanceGraph

/-! ## The hierarchy -/

namespace Design

variable {d d' : Design} {g : InstanceGraph} {m : Module} {work inners : List Module}
  {inner outer name : String}

/-- A module stands inside another one: a selected cell of the outer one has it as its type. -/
def StandsIn (d : Design) (inner outer : String) : Prop :=
  ∃ m, d.module? outer = some m ∧
    (∃ c ∈ d.selectedCells m, c.type = inner) ∧ (d.module? inner).isSome = true

/-- The modules of the hierarchy: the selected ones and what stands inside them, at any depth. -/
inductive InHierarchy (d : Design) : String → Prop where
  | selected {m : Module} (isSelected : m ∈ d.selectedModules) : InHierarchy d m.name
  | inside {inner outer : String} (stands : d.StandsIn inner outer)
      (belongs : InHierarchy d outer) : InHierarchy d inner

/-- What is instantiated in a module are the modules that its selected cells name. -/
theorem mem_instantiatedIn {i : Module} :
    i ∈ d.instantiatedIn m ↔ i ∈ d.modules.toList ∧ ∃ c ∈ d.selectedCells m, c.type = i.name := by
  rw [instantiatedIn, List.mem_filterMap]
  constructor
  · rintro ⟨c, hc, found⟩
    obtain ⟨hi, named⟩ := d.module?_eq_some_iff.mp found
    exact ⟨hi, c, hc, named.symm⟩
  · rintro ⟨hi, c, hc, named⟩
    exact ⟨c, hc, d.module?_eq_some_iff.mpr ⟨hi, named.symm⟩⟩

/-- A module stands inside another one when it is instantiated there. -/
theorem standsIn_iff (hm : m ∈ d.modules.toList) :
    d.StandsIn inner m.name ↔ ∃ i ∈ d.instantiatedIn m, i.name = inner := by
  have found : d.module? m.name = some m := d.module?_eq_some_iff.mpr ⟨hm, rfl⟩
  constructor
  · rintro ⟨m', found', ⟨c, hc, rfl⟩, isModule⟩
    rw [found] at found'
    cases found'
    obtain ⟨i, found⟩ := Option.isSome_iff_exists.mp isModule
    obtain ⟨hi, named⟩ := d.module?_eq_some_iff.mp found
    exact ⟨i, mem_instantiatedIn.mpr ⟨hi, c, hc, named.symm⟩, named⟩
  · rintro ⟨i, hi, rfl⟩
    obtain ⟨hi, cells⟩ := mem_instantiatedIn.mp hi
    refine ⟨m, found, cells, ?_⟩
    rw [d.module?_eq_some_iff.mpr ⟨hi, rfl⟩]
    rfl

/-! ## Meeting what stands inside one module -/

/-- How many modules of a design are no nodes yet. -/
def unmet (d : Design) (g : InstanceGraph) : Nat :=
  (d.modules.names.toFinset \ g.nodes.toFinset).card

theorem unmet_empty_le (d : Design) : d.unmet .empty ≤ d.modules.size :=
  calc d.unmet .empty ≤ d.modules.names.toFinset.card := Finset.card_le_card Finset.sdiff_subset
    _ ≤ d.modules.names.length := List.toFinset_card_le _
    _ = d.modules.size := List.length_map _

/-- A graph that has met more leaves no more to be met. -/
theorem unmet_le {h : InstanceGraph} (grows : ∀ n ∈ g.nodes, n ∈ h.nodes) :
    d.unmet h ≤ d.unmet g := by
  refine Finset.card_le_card (Finset.sdiff_subset_sdiff (Finset.Subset.refl _) fun n hn => ?_)
  rw [List.mem_toFinset] at hn ⊢
  exact grows n hn

/-- When a module is met for the first time, less is left. -/
theorem unmet_lt {h : InstanceGraph} (grows : ∀ n ∈ g.nodes, n ∈ h.nodes)
    (hm : m ∈ d.modules.toList) (new : m.name ∉ g.nodes) (met : m.name ∈ h.nodes) :
    d.unmet h < d.unmet g := by
  have isName : m.name ∈ d.modules.names := List.mem_map_of_mem hm
  refine Finset.card_lt_card (Finset.ssubset_iff_subset_ne.mpr ⟨?_, fun same => ?_⟩)
  · refine Finset.sdiff_subset_sdiff (Finset.Subset.refl _) fun n hn => ?_
    rw [List.mem_toFinset] at hn ⊢
    exact grows n hn
  · have before : m.name ∈ d.modules.names.toFinset \ g.nodes.toFinset := by
      simp only [Finset.mem_sdiff, List.mem_toFinset]
      exact ⟨isName, new⟩
    rw [← same] at before
    simp only [Finset.mem_sdiff, List.mem_toFinset] at before
    exact before.2 met

/-- What meeting the modules inside one module makes of a graph and finds. -/
structure Meets (d : Design) (outer : String) (g : InstanceGraph) (inners : List Module)
    (h : InstanceGraph) (found : List Module) : Prop where
  tidy : h.Tidy
  nodes : ∀ n, n ∈ h.nodes ↔ n ∈ g.nodes ∨ ∃ i ∈ inners, i.name = n
  edges : ∀ e, e ∈ h.edges ↔ e ∈ g.edges ∨ ∃ i ∈ inners, e = ⟨i.name, outer⟩
  isFound : ∀ i ∈ inners, i.name ∈ g.nodes ∨ ∃ f ∈ found, f.name = i.name
  fromInners : ∀ f ∈ found, f ∈ inners
  fewer : d.unmet h + found.length ≤ d.unmet g

/-- Meeting one module more, in front of the others. -/
theorem Meets.cons {i : Module} {h : InstanceGraph} {found : List Module}
    (hi : i ∈ d.modules.toList) (isNode : outer ∈ g.nodes)
    (meets : d.Meets outer (g.addEdge ⟨i.name, outer⟩) inners h found) :
    d.Meets outer g (i :: inners) h (if g.nodes.contains i.name then found else i :: found) := by
  have grows : ∀ n ∈ g.nodes, n ∈ (g.addEdge ⟨i.name, outer⟩).nodes := fun n hn =>
    InstanceGraph.mem_nodes_addEdge.mpr (.inl hn)
  have met : i.name ∈ (g.addEdge ⟨i.name, outer⟩).nodes :=
    InstanceGraph.mem_nodes_addEdge.mpr (.inr (.inl rfl))
  have either : ∀ n, n ∈ (g.addEdge ⟨i.name, outer⟩).nodes ↔ n ∈ g.nodes ∨ i.name = n := by
    intro n
    rw [InstanceGraph.mem_nodes_addEdge, eq_comm (a := i.name)]
    refine ⟨fun hn => ?_, fun hn => hn.imp_right .inl⟩
    rcases hn with hn | same | rfl
    · exact .inl hn
    · exact .inr same
    · exact .inl isNode
  have isFound : ∀ j ∈ inners,
      j.name ∈ g.nodes ∨ j.name = i.name ∨ ∃ f ∈ found, f.name = j.name := by
    intro j hj
    rcases meets.isFound j hj with hn | later
    · exact ((either _).mp hn).imp_right fun same => .inl same.symm
    · exact .inr (.inr later)
  have nodes : ∀ n, n ∈ h.nodes ↔ n ∈ g.nodes ∨ ∃ j ∈ i :: inners, j.name = n := by
    intro n
    rw [meets.nodes, either, List.exists_mem_cons_iff, or_assoc]
  have edges : ∀ e, e ∈ h.edges ↔ e ∈ g.edges ∨ ∃ j ∈ i :: inners, e = ⟨j.name, outer⟩ := by
    intro e
    rw [meets.edges, InstanceGraph.mem_edges_addEdge, List.exists_mem_cons_iff, or_assoc]
  split
  · next old =>
    rw [List.contains_iff_mem] at old
    refine ⟨meets.tidy, nodes, edges, List.forall_mem_cons.mpr ⟨.inl old, fun j hj => ?_⟩,
      fun f hf => List.mem_cons_of_mem _ (meets.fromInners f hf),
      meets.fewer.trans (unmet_le grows)⟩
    rcases isFound j hj with hn | same | later
    · exact .inl hn
    · exact .inl (same ▸ old)
    · exact .inr later
  · next new =>
    rw [List.contains_iff_mem] at new
    have less : d.unmet (g.addEdge ⟨i.name, outer⟩) < d.unmet g := unmet_lt grows hi new met
    have fewer := meets.fewer
    refine ⟨meets.tidy, nodes, edges, ?_, ?_, ?_⟩
    · refine List.forall_mem_cons.mpr ⟨.inr ⟨i, List.mem_cons_self, rfl⟩, fun j hj => ?_⟩
      rcases isFound j hj with hn | same | ⟨f, hf, same⟩
      · exact .inl hn
      · exact .inr ⟨i, List.mem_cons_self, same.symm⟩
      · exact .inr ⟨f, List.mem_cons_of_mem _ hf, same⟩
    · exact List.forall_mem_cons.mpr
        ⟨List.mem_cons_self, fun f hf => List.mem_cons_of_mem _ (meets.fromInners f hf)⟩
    · rw [List.length_cons]
      omega

/-- One step of the walk enters the modules inside one module, and queues the new ones. -/
theorem meets_meetInner (tidy : g.Tidy) (known : ∀ i ∈ inners, i ∈ d.modules.toList)
    (isNode : outer ∈ g.nodes) :
    d.Meets outer g inners (meetInner outer g inners).1 (meetInner outer g inners).2 := by
  induction inners generalizing g with
  | nil =>
    exact ⟨tidy, fun n => by simp [meetInner], fun e => by simp [meetInner], List.forall_mem_nil _,
      List.forall_mem_nil _, Nat.le_refl _⟩
  | cons i rest ih =>
    obtain ⟨hi, known⟩ := List.forall_mem_cons.mp known
    refine Meets.cons hi isNode (ih (tidy.addEdge _) known ?_)
    exact InstanceGraph.mem_nodes_addEdge.mpr (.inl isNode)

/-! ## Meeting all modules -/

/-- A graph in the making, and the modules that wait to be looked at. -/
structure Meeting (d : Design) (g : InstanceGraph) (work : List Module) : Prop where
  tidy : g.Tidy
  known : ∀ m ∈ work, m ∈ d.modules.toList
  belong : ∀ m ∈ work, d.InHierarchy m.name
  nodes : ∀ n ∈ g.nodes, d.InHierarchy n
  edges : ∀ e ∈ g.edges, d.StandsIn e.inner e.outer
  lookedAt : ∀ n ∈ g.nodes,
    (∃ m ∈ work, m.name = n) ∨ ∀ inner, d.StandsIn inner n → ⟨inner, n⟩ ∈ g.edges
  selected : ∀ m ∈ d.selectedModules, m ∈ work ∨ m.name ∈ g.nodes

/-- The invariant of the walk holds before the first step. -/
theorem meeting_start (d : Design) : d.Meeting .empty d.selectedModules where
  tidy := InstanceGraph.tidy_empty
  known := fun _ hm => (List.mem_filter.mp hm).1
  belong := fun _ => .selected
  nodes := List.forall_mem_nil _
  edges := List.forall_mem_nil _
  lookedAt := List.forall_mem_nil _
  selected := fun _ => .inl

/-- Looking at the next module makes it a node with all its edges, and what is found waits. -/
theorem Meeting.next {h : InstanceGraph} {found : List Module} (meeting : d.Meeting g (m :: work))
    (meets : d.Meets m.name (g.addNode m.name) (d.instantiatedIn m) h found) :
    d.Meeting h (work ++ found) := by
  obtain ⟨hm, known⟩ := List.forall_mem_cons.mp meeting.known
  obtain ⟨belongs, belong⟩ := List.forall_mem_cons.mp meeting.belong
  have stands : ∀ i ∈ d.instantiatedIn m, d.StandsIn i.name m.name := fun i hi =>
    (standsIn_iff hm).mpr ⟨i, hi, rfl⟩
  have kept : ∀ n ∈ g.nodes, n ∈ h.nodes := fun n hn =>
    (meets.nodes n).mpr (.inl (InstanceGraph.mem_nodes_addNode.mpr (.inl hn)))
  have keptEdge : ∀ e ∈ g.edges, e ∈ h.edges := fun e he =>
    (meets.edges e).mpr (.inl (by rwa [InstanceGraph.edges_addNode]))
  have complete : ∀ inner, d.StandsIn inner m.name → ⟨inner, m.name⟩ ∈ h.edges := by
    intro inner inside
    obtain ⟨i, hi, rfl⟩ := (standsIn_iff hm).mp inside
    exact (meets.edges _).mpr (.inr ⟨i, hi, rfl⟩)
  refine ⟨meets.tidy, ?_, ?_, ?_, ?_, ?_, ?_⟩
  · refine List.forall_mem_append.mpr ⟨known, fun f hf => ?_⟩
    exact (mem_instantiatedIn.mp (meets.fromInners f hf)).1
  · refine List.forall_mem_append.mpr ⟨belong, fun f hf => ?_⟩
    exact .inside (stands f (meets.fromInners f hf)) belongs
  · intro n hn
    rcases (meets.nodes n).mp hn with old | ⟨i, hi, rfl⟩
    · rcases InstanceGraph.mem_nodes_addNode.mp old with old | rfl
      · exact meeting.nodes n old
      · exact belongs
    · exact .inside (stands i hi) belongs
  · intro e he
    rcases (meets.edges e).mp he with old | ⟨i, hi, rfl⟩
    · rw [InstanceGraph.edges_addNode] at old
      exact meeting.edges e old
    · exact stands i hi
  · -- A node was looked at before, is the module that was just looked at, or is found just now.
    intro n hn
    rcases (meets.nodes n).mp hn with old | ⟨i, hi, rfl⟩
    · rcases InstanceGraph.mem_nodes_addNode.mp old with old | rfl
      · rcases meeting.lookedAt n old with ⟨w, hw, rfl⟩ | done
        · rcases List.mem_cons.mp hw with rfl | hw
          · exact .inr complete
          · exact .inl ⟨w, List.mem_append_left _ hw, rfl⟩
        · exact .inr fun inner inside => keptEdge _ (done inner inside)
      · exact .inr complete
    · rcases meets.isFound i hi with old | ⟨f, hf, same⟩
      · rcases InstanceGraph.mem_nodes_addNode.mp old with old | same
        · rcases meeting.lookedAt i.name old with ⟨w, hw, same⟩ | done
          · rcases List.mem_cons.mp hw with rfl | hw
            · exact .inr (same ▸ complete)
            · exact .inl ⟨w, List.mem_append_left _ hw, same⟩
          · exact .inr fun inner inside => keptEdge _ (done inner inside)
        · exact .inr (same ▸ complete)
      · exact .inl ⟨f, List.mem_append_right _ hf, same⟩
  · intro s hs
    rcases meeting.selected s hs with waits | old
    · rcases List.mem_cons.mp waits with rfl | waits
      · exact .inr ((meets.nodes _).mpr (.inl (InstanceGraph.mem_nodes_addNode.mpr (.inr rfl))))
      · exact .inl (List.mem_append_left _ waits)
    · exact .inr (kept _ old)

/-- One turn of the work: the next module is looked at, and of those that wait or are not met yet
there is one less. -/
theorem Meeting.step (meeting : d.Meeting g (m :: work)) :
    let met := meetInner m.name (g.addNode m.name) (d.instantiatedIn m)
    d.Meeting met.1 (work ++ met.2) ∧
      (work ++ met.2).length + d.unmet met.1 < (m :: work).length + d.unmet g := by
  intro met
  obtain ⟨hm, -⟩ := List.forall_mem_cons.mp meeting.known
  have modules : ∀ i ∈ d.instantiatedIn m, i ∈ d.modules.toList := fun i hi =>
    (mem_instantiatedIn.mp hi).1
  have meets : d.Meets m.name (g.addNode m.name) (d.instantiatedIn m) met.1 met.2 :=
    meets_meetInner (meeting.tidy.addNode m.name) modules
      (InstanceGraph.mem_nodes_addNode.mpr (.inr rfl))
  have less : d.unmet (g.addNode m.name) ≤ d.unmet g :=
    unmet_le fun n hn => InstanceGraph.mem_nodes_addNode.mpr (.inl hn)
  have fewer := meets.fewer
  refine ⟨meeting.next meets, ?_⟩
  rw [List.length_append, List.length_cons]
  omega

/-- Every module is looked at in the end. -/
theorem Meeting.meetAll {fuel : Nat} (meeting : d.Meeting g work)
    (enough : work.length + d.unmet g ≤ fuel) : d.Meeting (d.meetAll fuel g work) [] := by
  induction fuel generalizing g work with
  | zero =>
    have none : work = [] := List.eq_nil_of_length_eq_zero (by omega)
    rw [none] at meeting
    exact meeting
  | succ fuel ih =>
    cases work with
    | nil => exact meeting
    | cons m rest =>
      obtain ⟨next, less⟩ := meeting.step
      exact ih next (by omega)

/-- Fuel beyond what the work takes changes nothing. -/
theorem Meeting.meetAll_eq {fuel fuel' : Nat} (meeting : d.Meeting g work)
    (enough : work.length + d.unmet g ≤ fuel) (more : fuel ≤ fuel') :
    d.meetAll fuel' g work = d.meetAll fuel g work := by
  induction fuel generalizing fuel' g work with
  | zero =>
    have none : work = [] := List.eq_nil_of_length_eq_zero (by omega)
    rw [none]
    cases fuel' <;> rfl
  | succ fuel ih =>
    obtain ⟨fuel', rfl⟩ : ∃ n, fuel' = n + 1 := ⟨fuel' - 1, by omega⟩
    cases work with
    | nil => rfl
    | cons m rest =>
      obtain ⟨next, less⟩ := meeting.step
      exact ih next (by omega) (by omega)

/-- The graph comes out of any fuel that is enough by the number of modules. -/
theorem meetAll_eq_instanceGraph {fuel : Nat}
    (enough : d.selectedModules.length + d.modules.size ≤ fuel) :
    d.meetAll fuel .empty d.selectedModules = d.instanceGraph :=
  d.meeting_start.meetAll_eq (Nat.add_le_add_left d.unmet_empty_le _) enough

/-- It holds at the end, when nothing is queued. -/
theorem meeting_instanceGraph (d : Design) : d.Meeting d.instanceGraph [] :=
  d.meeting_start.meetAll (Nat.add_le_add_left d.unmet_empty_le _)

/-! ## The graph of a design -/

/-- The nodes of the graph are the modules of the hierarchy. -/
theorem mem_nodes_instanceGraph : name ∈ d.instanceGraph.nodes ↔ d.InHierarchy name := by
  have meeting := d.meeting_instanceGraph
  refine ⟨meeting.nodes name, fun belongs => ?_⟩
  induction belongs with
  | selected isSelected =>
    exact (meeting.selected _ isSelected).resolve_left List.not_mem_nil
  | @inside inner outer stands _ ih =>
    rcases meeting.lookedAt outer ih with ⟨m, hm, -⟩ | done
    · cases hm
    · exact meeting.tidy.inner _ (done inner stands)

/-- The edges of the graph are what stands inside the modules of the hierarchy. -/
theorem mem_edges_instanceGraph :
    ⟨inner, outer⟩ ∈ d.instanceGraph.edges ↔ d.StandsIn inner outer ∧ d.InHierarchy outer := by
  have meeting := d.meeting_instanceGraph
  constructor
  · intro he
    exact ⟨meeting.edges _ he, meeting.nodes _ (meeting.tidy.outer _ he)⟩
  · rintro ⟨stands, belongs⟩
    rcases meeting.lookedAt outer (mem_nodes_instanceGraph.mpr belongs) with ⟨m, hm, -⟩ | done
    · cases hm
    · exact done inner stands

theorem tidy_instanceGraph (d : Design) : d.instanceGraph.Tidy := d.meeting_instanceGraph.tidy

end Design

end NearestMux
