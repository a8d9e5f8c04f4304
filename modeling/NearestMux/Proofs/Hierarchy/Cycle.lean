import Mathlib.Data.List.Chain
import Mathlib.Data.List.Infix
import NearestMux.Proofs.Hierarchy.Order

/-!
# A recursive hierarchy is reported with a circle of it

Two algorithms work on one graph. `Hierarchy.Order` finds out that there is no order, and only then
`Hierarchy.Cycle` looks for a circle to name. Nothing in the text of either says that they agree;
`Design.index_recursive` does: an index is refused as recursive just when some module of the
hierarchy stands inside itself, and what is named is a circle (`IsCircle`). So the empty list, which
the report would fall back on, is never reported.

A walk keeps more on its stack than the trail keeps on its path, because it goes into settled
modules once more while the trail passes them over. What ties the two together is that the stack
without settled modules is the end of the path (`InstanceGraph.OnTrail`). What a walk without a
circle has met is settled behind it: from there every way outwards comes to an end
(`InstanceGraph.Settled`). A module that is left has its edges behind it, and each leads to a module
that is done or to the one above it on the stack (`InstanceGraph.Walked`).

Which of several circles is named is fixed by the walk and not said here.
-/

namespace NearestMux

/-! ## Circles -/

/-- Modules that stand inside one another in a circle: each inside the next one and the last inside
the first, with none named twice. -/
structure IsCircle (stands : String → String → Prop) (names : List String) : Prop where
  nonempty : names ≠ []
  nodup : names.Nodup
  next : names.IsChain stands
  closes : ∀ first ∈ names.head?, ∀ last ∈ names.getLast?, stands last first

/-- A circle stays one when more stands inside other things. -/
theorem IsCircle.mono {stands stands' : String → String → Prop} {names : List String}
    (circle : IsCircle stands names)
    (weaker : ∀ inner outer, stands inner outer → stands' inner outer) :
    IsCircle stands' names where
  nonempty := circle.nonempty
  nodup := circle.nodup
  next := circle.next.imp weaker
  closes := fun first hfirst last hlast => weaker _ _ (circle.closes first hfirst last hlast)

/-- A path that goes on to one of its own modules closes a circle, which starts at that module. The
path has its last module in front. -/
theorem isCircle_dropWhile {stands : String → String → Prop} {inner outer : String}
    {path : List String} (nodup : (inner :: path).Nodup)
    (chain : (inner :: path).IsChain fun later earlier => stands earlier later)
    (mem : outer ∈ inner :: path) (closes : stands inner outer) :
    IsCircle stands ((inner :: path).reverse.dropWhile (· != outer)) := by
  obtain ⟨behind, before, split⟩ := List.append_of_mem mem
  have notBefore : outer ∉ before := by
    rw [split, List.nodup_middle, List.nodup_cons] at nodup
    exact fun h => nodup.1 (List.mem_append_right _ h)
  have dropped : (inner :: path).reverse.dropWhile (· != outer) = (behind ++ [outer]).reverse := by
    have passed : ∀ name ∈ before.reverse, (name != outer) = true := by
      intro name h
      rw [bne_iff_ne]
      rintro rfl
      exact notBefore (List.mem_reverse.mp h)
    rw [split, List.reverse_append, List.reverse_cons, List.append_assoc,
      List.dropWhile_append_of_pos passed, List.reverse_append]
    exact List.dropWhile_cons_of_neg (by simp)
  have isPrefix : behind ++ [outer] <+: inner :: path := by
    rw [split]
    exact ⟨before, List.append_assoc _ _ _⟩
  have begins : (behind ++ [outer]).IsChain fun later earlier => stands earlier later :=
    List.IsChain.prefix chain isPrefix
  rw [dropped]
  refine ⟨by simp, ?_, ?_, ?_⟩
  · exact List.nodup_reverse.mpr (isPrefix.sublist.nodup nodup)
  · exact List.isChain_reverse.mpr begins
  · intro first hfirst last hlast
    rw [List.head?_reverse, List.getLast?_append, List.getLast?_singleton] at hfirst
    cases hfirst
    have last : (behind ++ [outer]).head? = (inner :: path).head? := by
      rw [split]
      cases behind <;> rfl
    rw [List.getLast?_reverse, last] at hlast
    cases hlast
    exact closes

namespace InstanceGraph

variable {g : InstanceGraph} {e : Instantiation} {left : List Instantiation}
  {settled stack seen active below : List String} {path : List Instantiation} {name : String}
  {t : Trail}

/-! ## What a walk leaves behind -/

/-- A module has another one inside. -/
def Around (g : InstanceGraph) (outer inner : String) : Prop := ⟨inner, outer⟩ ∈ g.edges

/-- Modules that are done: going outwards from them comes to an end and does not leave them. -/
structure Settled (g : InstanceGraph) (settled : List String) : Prop where
  ends : ∀ name ∈ settled, Acc g.Around name
  closed : ∀ e ∈ g.edges, e.inner ∈ settled → e.outer ∈ settled

theorem settled_nil (g : InstanceGraph) : g.Settled [] where
  ends := List.forall_mem_nil _
  closed := fun _ _ h => absurd h List.not_mem_nil

/-- A node from which every walk ends is not below itself. -/
theorem not_below_of_acc (ends : Acc g.Around name) : ¬ Below g.edges name name := by
  intro circle
  have around : Relation.TransGen g.Around name name := Relation.transGen_swap.mpr circle
  have deep := ends.transGen
  clear ends circle
  induction deep with
  | intro name _ ih => exact ih name around around

/-- How far a walk has come. An edge that is not left was followed: its outer module was met, and
either going outwards from it comes to an end or the walk is still in it, right above the inner one.
-/
structure Walked (g : InstanceGraph) (settled : List String) (left : List Instantiation)
    (stack seen : List String) : Prop where
  met : ∀ e ∈ g.edges, e ∈ left ∨ e.outer ∈ seen ∨ e.outer ∈ settled
  ended : ∀ e ∈ g.edges, e ∈ left ∨ Acc g.Around e.outer ∨ [e.outer, e.inner] <:+: stack
  pending : ∀ name ∈ seen, Acc g.Around name ∨ name ∈ stack
  waits : ∀ e ∈ left, e.inner ∈ seen → e.inner ∈ stack

theorem walked_start (g : InstanceGraph) (settled : List String) (start : String) :
    g.Walked settled g.edges [start] [start] where
  met := fun _ => .inl
  ended := fun _ => .inl
  pending := fun _ => .inr
  waits := fun _ _ => id

/-- Following an edge goes into its outer module. -/
theorem Walked.follow {seen' : List String} (walked : g.Walked settled left (e.inner :: stack) seen)
    (kept : ∀ name ∈ seen, name ∈ seen') (only : ∀ name ∈ seen', name = e.outer ∨ name ∈ seen)
    (met : e.outer ∈ seen' ∨ e.outer ∈ settled) :
    g.Walked settled (left.erase e) (e.outer :: e.inner :: stack) seen' where
  met := fun f hf => by
    by_cases same : f = e
    · exact .inr (same ▸ met)
    · rcases walked.met f hf with isLeft | isSeen | isSettled
      · exact .inl ((List.mem_erase_of_ne same).mpr isLeft)
      · exact .inr (.inl (kept _ isSeen))
      · exact .inr (.inr isSettled)
  ended := fun f hf => by
    by_cases same : f = e
    · exact .inr (.inr (same ▸ ⟨[], stack, rfl⟩))
    · rcases walked.ended f hf with isLeft | ends | on
      · exact .inl ((List.mem_erase_of_ne same).mpr isLeft)
      · exact .inr (.inl ends)
      · exact .inr (.inr (List.infix_cons on))
  pending := fun name h => by
    rcases only name h with rfl | isSeen
    · exact .inr List.mem_cons_self
    · exact (walked.pending name isSeen).imp_right (List.mem_cons_of_mem _)
  waits := fun f hf h => by
    rcases only _ h with same | isSeen
    · exact List.mem_cons.mpr (.inl same)
    · exact List.mem_cons_of_mem _ (walked.waits f (List.mem_of_mem_erase hf) isSeen)

/-- A module that has no edge left is left, and going outwards from it comes to an end. -/
theorem Walked.leave (walked : g.Walked settled left (name :: stack) seen)
    (isSettled : g.Settled settled) (once : name ∉ settled → name ∉ stack)
    (noneLeft : ∀ e ∈ left, e.inner ≠ name) : g.Walked settled left stack seen := by
  have ends : Acc g.Around name := by
    by_cases known : name ∈ settled
    · exact isSettled.ends name known
    · refine .intro name fun outer around => ?_
      rcases walked.ended _ around with isLeft | ends | on
      · exact absurd rfl (noneLeft _ isLeft)
      · exact ends
      · -- `outer` would stand above `name`, which is the innermost, so `name` would stand twice.
        have above : name ∈ stack := by
          rcases List.infix_cons_iff.mp on with first | later
          · obtain ⟨-, first⟩ := List.cons_prefix_cons.mp first
            exact first.subset List.mem_cons_self
          · exact later.subset (List.mem_cons_of_mem _ List.mem_cons_self)
        exact absurd above (once known)
  refine ⟨walked.met, fun e he => ?_, fun other h => ?_, fun e he h => ?_⟩
  · rcases walked.ended e he with isLeft | ends | on
    · exact .inl isLeft
    · exact .inr (.inl ends)
    · rcases List.infix_cons_iff.mp on with first | later
      · obtain ⟨same, -⟩ := List.cons_prefix_cons.mp first
        exact .inr (.inl (same ▸ ends))
      · exact .inr (.inr later)
  · rcases walked.pending other h with ends | on
    · exact .inl ends
    · rcases List.mem_cons.mp on with rfl | on
      · exact .inl ends
      · exact .inr on
  · exact (List.mem_cons.mp (walked.waits e he h)).resolve_left (noneLeft e he)

/-- At the end of a walk what it has met is settled. -/
theorem Walked.finish (walked : g.Walked settled left [] seen) (isSettled : g.Settled settled) :
    g.Settled (seen ++ settled) where
  ends := fun name h => by
    rcases List.mem_append.mp h with isSeen | known
    · exact (walked.pending name isSeen).resolve_right List.not_mem_nil
    · exact isSettled.ends name known
  closed := fun e he h => by
    rcases List.mem_append.mp h with isSeen | known
    · rcases walked.met e he with isLeft | met
      · exact absurd (walked.waits e isLeft isSeen) List.not_mem_nil
      · exact List.mem_append.mpr met
    · exact List.mem_append_right _ (isSettled.closed e he known)

/-! ## The path of a walk -/

/-- The edges of a path and the modules on it, the last one in front. -/
inductive Along (g : InstanceGraph) : List Instantiation → List String → Prop where
  | start {name : String} : Along g [] [name]
  | step {e : Instantiation} {path : List Instantiation} {active : List String}
      (isEdge : e ∈ g.edges) (along : Along g path (e.inner :: active)) :
      Along g (e :: path) (e.outer :: e.inner :: active)

/-- At the start of a trail one node is active. -/
theorem Along.active_eq (along : g.Along [] active) : ∃ first, active = [first] := by
  cases along
  exact ⟨_, rfl⟩

/-- The last edge of a trail leads to the node that was entered last. -/
theorem Along.head? (along : g.Along (e :: path) active) : active.head? = some e.outer := by
  cases along
  rfl

/-- The active nodes are a chain of edges. -/
theorem Along.isChain (along : g.Along path active) : active.IsChain g.Around := by
  induction along with
  | start => exact .singleton _
  | step isEdge _ ih => exact .cons_cons isEdge ih

/-- A trail names the active nodes below the last one. -/
theorem Along.map_inner (along : g.Along path (name :: below)) :
    path.map (·.inner) = below := by
  generalize h : name :: below = active at along
  induction along generalizing name below with
  | start =>
    cases h
    rfl
  | step _ _ ih =>
    cases h
    rw [List.map_cons, ih rfl]

/-- Two ends of one path that start at the same module are the same. -/
theorem eq_of_suffix {rest : List String} (nodup : (name :: rest).Nodup)
    (isEnd : name :: below <:+ name :: rest) : below = rest := by
  rcases List.suffix_cons_iff.mp isEnd with same | later
  · exact (List.cons.inj same).2
  · exact absurd (later.subset List.mem_cons_self) (List.nodup_cons.mp nodup).1

/-- A path is taken back to a module on it. -/
theorem Along.shrink (along : g.Along path active) (nodup : active.Nodup)
    (isEnd : name :: below <:+ active) (shorter : active.head? ≠ some name) :
    ∃ path', InstanceGraph.shrink name path active = (path', name :: below) ∧
      g.Along path' (name :: below) := by
  induction along with
  | @start first =>
    rcases List.suffix_cons_iff.mp isEnd with same | later
    · cases same
      exact absurd rfl shorter
    · cases List.suffix_nil.mp later
  | @step e path active isEdge along ih =>
    have isEnd : name :: below <:+ e.inner :: active := by
      rcases List.suffix_cons_iff.mp isEnd with same | later
      · cases same
        exact absurd rfl shorter
      · exact later
    have nodup := (List.nodup_cons.mp nodup).2
    cases path with
    | nil =>
      cases along
      rcases List.suffix_cons_iff.mp isEnd with same | later
      · cases same
        exact ⟨[], rfl, .start⟩
      · cases List.suffix_nil.mp later
    | cons before path =>
      rw [InstanceGraph.shrink, List.erase_cons_head]
      have leads : e.inner = before.outer := Option.some.inj along.head?
      split
      · next same =>
        rw [← leads] at same
        subst same
        obtain rfl := eq_of_suffix nodup isEnd
        exact ⟨_, rfl, along⟩
      · next differ =>
        refine ih nodup isEnd fun same => differ ?_
        exact leads.symm.trans (Option.some.inj same)

/-- The modules of a stack that are not settled. -/
def unsettled (settled stack : List String) : List String :=
  stack.filter fun name => !settled.contains name

theorem unsettled_cons_of_mem (known : name ∈ settled) :
    unsettled settled (name :: stack) = unsettled settled stack :=
  List.filter_cons_of_neg (by simpa using known)

theorem unsettled_cons_of_not_mem (new : name ∉ settled) :
    unsettled settled (name :: stack) = name :: unsettled settled stack :=
  List.filter_cons_of_pos (by simpa using new)

/-- Where the trail of a walk is: the stack without settled modules is the end of the path. -/
structure OnTrail (g : InstanceGraph) (settled stack : List String) (t : Trail) : Prop where
  along : g.Along t.path t.active
  nodup : t.active.Nodup
  isEnd : unsettled settled stack <:+ t.active
  last : t.last = none ∧ t.path = [] ∨ t.last = t.active.head?

theorem onTrail_start {start : String} (new : start ∉ settled) :
    g.OnTrail settled [start] ⟨[], [start], [start], none⟩ where
  along := .start
  nodup := List.nodup_singleton start
  isEnd := by
    rw [unsettled_cons_of_not_mem new]
    exact List.suffix_refl _
  last := .inl ⟨rfl, rfl⟩

/-- A node that is not settled does not wait twice. -/
theorem OnTrail.not_mem (trail : g.OnTrail settled (name :: stack) t) (new : name ∉ settled) :
    name ∉ stack := by
  have nodup := trail.isEnd.nodup trail.nodup
  rw [unsettled_cons_of_not_mem new, List.nodup_cons] at nodup
  exact fun h => nodup.1 (List.mem_filter.mpr ⟨h, by simpa using new⟩)

/-- A node that is done leaves the trail. -/
theorem OnTrail.leave (trail : g.OnTrail settled (name :: stack) t) :
    g.OnTrail settled stack t where
  along := trail.along
  nodup := trail.nodup
  isEnd := by
    have isEnd := trail.isEnd
    by_cases known : name ∈ settled
    · rwa [unsettled_cons_of_mem known] at isEnd
    · rw [unsettled_cons_of_not_mem known] at isEnd
      exact (List.suffix_cons _ _).trans isEnd
  last := trail.last

/-- A settled node on the stack changes nothing. -/
theorem OnTrail.pass (trail : g.OnTrail settled stack t) (known : name ∈ settled) :
    g.OnTrail settled (name :: stack) t where
  along := trail.along
  nodup := trail.nodup
  isEnd := by
    rw [unsettled_cons_of_mem known]
    exact trail.isEnd
  last := trail.last

/-- From where an edge goes on the path is what the stack says. -/
theorem OnTrail.reach (trail : g.OnTrail settled (e.inner :: stack) t) (new : e.inner ∉ settled) :
    (t.reach e).active = e.inner :: unsettled settled stack ∧
      g.Along (t.reach e).path (e.inner :: unsettled settled stack) ∧
      (t.reach e).seen = t.seen := by
  have isEnd := trail.isEnd
  rw [unsettled_cons_of_not_mem new] at isEnd
  by_cases ends : t.active.head? = some e.inner
  · obtain ⟨rest, split⟩ := List.head?_eq_some_iff.mp ends
    have nodup := trail.nodup
    rw [split] at isEnd nodup
    have whole : t.active = e.inner :: unsettled settled stack := by
      rw [split, eq_of_suffix nodup isEnd]
    have stays : t.reach e = t := by
      rw [Trail.reach, if_pos]
      rcases trail.last with ⟨none, -⟩ | last
      · rw [none]
        rfl
      · rw [last, ends]
        exact beq_self_eq_true _
    rw [stays]
    exact ⟨whole, whole ▸ trail.along, rfl⟩
  · obtain ⟨path, shrunk, along⟩ := trail.along.shrink trail.nodup isEnd ends
    have back : t.reach e =
        { t with path := path, active := e.inner :: unsettled settled stack } := by
      have elsewhere : t.last.all (· == e.inner) ≠ true := fun all => by
        rcases trail.last with ⟨-, none⟩ | last
        · obtain ⟨first, single⟩ := (none ▸ trail.along).active_eq
          rw [single] at isEnd ends
          rcases List.suffix_cons_iff.mp isEnd with same | later
          · exact ends (by rw [← (List.cons.inj same).1]; rfl)
          · cases List.suffix_nil.mp later
        · cases first : t.active.head? with
          | none =>
            rw [List.head?_eq_none_iff.mp first] at isEnd
            cases List.suffix_nil.mp isEnd
          | some name =>
            rw [last, first, Option.all_some, beq_iff_eq] at all
            exact ends (all ▸ first)
      rw [Trail.reach, if_neg elsewhere, shrunk]
    rw [back]
    exact ⟨rfl, along, rfl⟩

/-- A new node is entered by the edge that led to it. -/
theorem OnTrail.extend (trail : g.OnTrail settled (e.inner :: stack) t) (new : e.inner ∉ settled)
    (newOuter : e.outer ∉ settled) (isEdge : e ∈ g.edges)
    (opens : e.outer ∉ (t.reach e).active) :
    g.OnTrail settled (e.outer :: e.inner :: stack)
      ⟨e :: (t.reach e).path, e.outer :: (t.reach e).active, e.outer :: (t.reach e).seen,
        some e.outer⟩ := by
  obtain ⟨active, along, -⟩ := trail.reach new
  have nodup := trail.isEnd.nodup trail.nodup
  rw [unsettled_cons_of_not_mem new] at nodup
  rw [active] at opens ⊢
  refine ⟨.step isEdge along, List.nodup_cons.mpr ⟨opens, nodup⟩, ?_, .inr rfl⟩
  rw [unsettled_cons_of_not_mem newOuter, unsettled_cons_of_not_mem new]

/-- The cycle that a trail closes is a circle. -/
theorem OnTrail.isCircle (trail : g.OnTrail settled (e.inner :: stack) t) (new : e.inner ∉ settled)
    (isEdge : e ∈ g.edges) (closes : e.outer ∈ (t.reach e).active) :
    IsCircle (fun inner outer => ⟨inner, outer⟩ ∈ g.edges)
      (((e :: (t.reach e).path).reverse.dropWhile (·.inner != e.outer)).map (·.inner)) := by
  obtain ⟨active, along, -⟩ := trail.reach new
  have nodup := trail.isEnd.nodup trail.nodup
  rw [unsettled_cons_of_not_mem new] at nodup
  rw [active] at closes
  have names : ((e :: (t.reach e).path).reverse.dropWhile (·.inner != e.outer)).map (·.inner) =
      (e.inner :: unsettled settled stack).reverse.dropWhile (· != e.outer) := by
    rw [← along.map_inner, ← List.map_cons, ← List.map_reverse, List.dropWhile_map]
    rfl
  rw [names]
  exact isCircle_dropWhile nodup along.isChain closes isEdge

/-! ## One walk, and all of them -/

/-- What the walk from a start answers: a circle, or what is settled with it. -/
def Finds (g : InstanceGraph) (settled : List String) (start : String) :
    List Instantiation ⊕ List String → Prop
  | .inl cycle => IsCircle (fun inner outer => ⟨inner, outer⟩ ∈ g.edges) (cycle.map (·.inner))
  | .inr seen => start ∈ seen ∧ g.Settled (seen ++ settled)

/-- A walk answers truly from wherever it has come: each turn follows an edge or leaves a module. -/
theorem finds_follow {fuel : Nat} {start : String} (isSettled : g.Settled settled)
    (sub : ∀ e ∈ left, e ∈ g.edges) (walked : g.Walked settled left stack t.seen)
    (trail : g.OnTrail settled stack t) (started : start ∈ t.seen)
    (enough : 2 * left.length + stack.length ≤ fuel) :
    g.Finds settled start (InstanceGraph.follow settled (edgeWalk fuel left stack) t) := by
  induction fuel generalizing left stack t with
  | zero =>
    have none : stack = [] := List.eq_nil_of_length_eq_zero (by omega)
    subst none
    exact ⟨started, walked.finish isSettled⟩
  | succ fuel ih =>
    cases stack with
    | nil => exact ⟨started, walked.finish isSettled⟩
    | cons name stack =>
      rw [List.length_cons] at enough
      rw [edgeWalk]
      split
      · next e found =>
        have isLeft := List.mem_of_find?_eq_some found
        have isEdge := sub e isLeft
        have fewer : (left.erase e).length + 1 = left.length := by
          rw [List.length_erase_of_mem isLeft]
          have := List.length_pos_of_mem isLeft
          omega
        obtain rfl : e.inner = name := by simpa using List.find?_some found
        have sub' : ∀ f ∈ left.erase e, f ∈ g.edges := fun f hf => sub f (List.mem_of_mem_erase hf)
        have enough' : 2 * (left.erase e).length + (e.outer :: e.inner :: stack).length ≤ fuel := by
          rw [List.length_cons, List.length_cons]
          omega
        rw [InstanceGraph.follow]
        split
        · -- The walk goes into a settled module again, and the trail passes the edge over.
          next known =>
          rw [List.contains_iff_mem] at known
          have walked' := walked.follow (fun _ => id) (fun _ => .inr) (.inr known)
          exact ih sub' walked' (trail.pass known) started enough'
        · -- No edge leads out of the settled modules, so the edge begins on the path.
          next new =>
          rw [List.contains_iff_mem] at new
          have newInner : e.inner ∉ settled := fun known => new (isSettled.closed e isEdge known)
          dsimp only
          split
          · next closes => exact trail.isCircle newInner isEdge (List.contains_iff_mem.mp closes)
          · next opens =>
            rw [List.contains_iff_mem] at opens
            have seen := (trail.reach newInner).2.2
            refine ih sub' ?_ (trail.extend newInner new isEdge opens) ?_ enough'
            · dsimp only
              rw [seen]
              exact walked.follow (fun _ => List.mem_cons_of_mem _) (fun _ => List.mem_cons.mp)
                (.inl List.mem_cons_self)
            · dsimp only
              rw [seen]
              exact List.mem_cons_of_mem _ started
      · next noneLeft =>
        rw [List.find?_eq_none] at noneLeft
        have walked' := walked.leave isSettled trail.not_mem fun e he same =>
          noneLeft e he (beq_iff_eq.mpr same)
        exact ih sub walked' trail.leave started (by omega)

/-- What the walk finds is a circle; where it finds none, every walk from the starts ends. -/
theorem firstCycle_spec {starts : List String} (isSettled : g.Settled settled) :
    (∀ cycle, firstCycle g starts settled = some cycle →
      IsCircle (fun inner outer => ⟨inner, outer⟩ ∈ g.edges) (cycle.map (·.inner))) ∧
    (firstCycle g starts settled = none → ∀ start ∈ starts, Acc g.Around start) := by
  induction starts generalizing settled with
  | nil => exact ⟨nofun, fun _ => List.forall_mem_nil _⟩
  | cons start starts ih =>
    rw [firstCycle]
    split
    · next known =>
      rw [List.contains_iff_mem] at known
      refine ⟨(ih isSettled).1, fun none => List.forall_mem_cons.mpr ⟨?_, (ih isSettled).2 none⟩⟩
      exact isSettled.ends start known
    · next new =>
      rw [List.contains_iff_mem] at new
      have enough : 2 * g.edges.length + [start].length ≤ 2 * g.edges.length + 2 := by simp
      have finds := finds_follow isSettled (fun _ => id) (g.walked_start settled start)
        (onTrail_start new) List.mem_cons_self enough
      dsimp only
      split
      · next cycle found =>
        rw [found] at finds
        refine ⟨fun cycle' same => ?_, nofun⟩
        cases same
        exact finds
      · next seen found =>
        rw [found] at finds
        obtain ⟨started, isSettled⟩ := finds
        refine ⟨(ih isSettled).1, fun none => List.forall_mem_cons.mpr ⟨?_, (ih isSettled).2 none⟩⟩
        exact isSettled.ends start (List.mem_append_left _ started)

/-- A cycle that is told is a circle of the graph. -/
theorem isCircle_of_cycle? {cycle : List Instantiation} (found : g.cycle? = some cycle) :
    IsCircle (fun inner outer => ⟨inner, outer⟩ ∈ g.edges) (cycle.map (·.inner)) :=
  (firstCycle_spec g.settled_nil).1 cycle found

/-- Where no cycle is told, no node is below itself. -/
theorem not_below_of_cycle? (none : g.cycle? = none) (isNode : name ∈ g.nodes) :
    ¬ Below g.edges name name :=
  not_below_of_acc ((firstCycle_spec g.settled_nil).2 none name isNode)

end InstanceGraph

/-! ## The report -/

namespace Design

variable {d : Design} {cycle : List String}

/-- A design has no index for a cycle just when its graph has no order; the cycle told is the one of
the graph. -/
theorem index_eq_recursive_iff (selected : d.selectedModules ≠ []) :
    d.index = .error (.recursiveHierarchy cycle) ↔
      d.instanceGraph.order? = none ∧
        (d.instanceGraph.cycle?.getD []).map (·.inner) = cycle := by
  have notEmpty : d.selectedModules.isEmpty = false := List.isEmpty_eq_false_iff.mpr selected
  simp only [index, notEmpty, Bool.false_eq_true, if_false]
  cases d.instanceGraph.order? with
  | none => simp
  | some order => simp

/-- Where something is selected, the index is refused as recursive just when a module of the
hierarchy stands inside itself, and the modules that are named then stand inside one another in a
circle. -/
theorem index_recursive (selected : d.selectedModules ≠ []) :
    ((∃ cycle, d.index = .error (.recursiveHierarchy cycle)) ↔
      ∃ name, d.InHierarchy name ∧ Relation.TransGen d.StandsIn name name) ∧
    ∀ cycle, d.index = .error (.recursiveHierarchy cycle) → IsCircle d.StandsIn cycle := by
  refine ⟨⟨?_, ?_⟩, ?_⟩
  · rintro ⟨cycle, refused⟩
    obtain ⟨unordered, -⟩ := (index_eq_recursive_iff selected).mp refused
    obtain ⟨name, isNode, circle⟩ := InstanceGraph.exists_circle_of_order? unordered
    have belongs := mem_nodes_instanceGraph.mp isNode
    exact ⟨name, belongs, (below_iff belongs).mp circle⟩
  · rintro ⟨name, belongs, circle⟩
    refine ⟨_, (index_eq_recursive_iff selected).mpr ⟨?_, rfl⟩⟩
    by_contra ordered
    obtain ⟨order, placed⟩ := Option.ne_none_iff_exists'.mp ordered
    have wanted := isHierarchyOrder_iff.mpr (InstanceGraph.places_of_place placed)
    exact wanted.not_circle belongs circle
  · intro cycle refused
    obtain ⟨unordered, rfl⟩ := (index_eq_recursive_iff selected).mp refused
    obtain ⟨name, isNode, circle⟩ := InstanceGraph.exists_circle_of_order? unordered
    cases found : d.instanceGraph.cycle? with
    | none => exact absurd circle (InstanceGraph.not_below_of_cycle? found isNode)
    | some cycle =>
      exact (InstanceGraph.isCircle_of_cycle? found).mono fun _ _ he =>
        (mem_edges_instanceGraph.mp he).1

/-- A module `top` with `a` inside, `b` inside of `a` and `a` again inside of `b`. -/
def whorl : Design where
  modules := ⟨[⟨"\\top", ∅, ⟨[⟨"\\u", "\\a", ∅, ∅⟩], by decide⟩, [], []⟩,
    ⟨"\\a", ∅, ⟨[⟨"\\u", "\\b", ∅, ∅⟩], by decide⟩, [], []⟩,
    ⟨"\\b", ∅, ⟨[⟨"\\u", "\\a", ∅, ∅⟩], by decide⟩, [], []⟩], by decide⟩
  top := none
  selection := .everything

theorem index_recursive_whorl : whorl.selectedModules ≠ [] ∧
    whorl.index = .error (.recursiveHierarchy ["\\a", "\\b"]) ∧
    IsCircle whorl.StandsIn ["\\a", "\\b"] ∧
    ∃ name, whorl.InHierarchy name ∧ Relation.TransGen whorl.StandsIn name name := by
  have selected : whorl.selectedModules ≠ [] := List.isEmpty_eq_false_iff.mp (by decide +kernel)
  have refused : whorl.index = .error (.recursiveHierarchy ["\\a", "\\b"]) :=
    (index_eq_recursive_iff selected).mpr (by decide +kernel)
  obtain ⟨recursive, circle⟩ := index_recursive selected
  exact ⟨selected, refused, circle _ refused, recursive.mp ⟨_, refused⟩⟩

end Design

end NearestMux
