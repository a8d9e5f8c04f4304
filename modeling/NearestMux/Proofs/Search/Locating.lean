import NearestMux.Proofs.Hierarchy.Order
import NearestMux.Proofs.Lists
import NearestMux.Proofs.Netlist.Rosters
import NearestMux.Query

/-!
# Locating a wire — where a query starts, or why it does not

A query looks for its wire in the candidates: the modules of the hierarchy whose names contain the
filter. Five things can come of it, and which of them does depends only on which candidates have the
wire (`Query.Has`). `Query.locate_classifies` gives the condition of each one. No two of the
conditions hold together and one of them always does, so nothing else comes of a query.

* A place is the answer when one candidate has the wire, and no other.
* The wire is ambiguous when two candidates have it. The fault names the first two, in the order of
  the index (`Query.FirstTwo`).
* Without a candidate a filter is to blame, and only a filter; otherwise it is the wire.

The candidates can be gone through once, with what was met so far in mind, and left as soon as the
wire is met for the second time (`Query.walk`). Nothing is lost by leaving early: the two places
that were met are the first two of all (`Query.walk_eq_locate`).

The order of an index is that of names. In whichever order the modules of a design arrived, what
comes of a query is the same.
-/

namespace NearestMux

/-! ## Modules in another order -/

/-- The same modules arrived in another order, and the same part of them is selected. -/
structure Design.Resorted (d d' : Design) : Prop where
  modules : d.modules.toList.Perm d'.modules.toList
  hasModule : ∀ name, d'.selection.hasModule name = d.selection.hasModule name
  hasMember : ∀ name member,
    d'.selection.hasMember name member = d.selection.hasMember name member

namespace Design.Resorted

variable {d d' : Design} {inner outer name : String}

theorem symm (same : d.Resorted d') : d'.Resorted d where
  modules := same.modules.symm
  hasModule := fun name => (same.hasModule name).symm
  hasMember := fun name member => (same.hasMember name member).symm

theorem module?_eq (same : d.Resorted d') (name : String) : d'.module? name = d.module? name :=
  (Roster.find?_eq_of_perm same.modules name).symm

theorem selectedCells_eq (same : d.Resorted d') (m : Module) :
    d'.selectedCells m = d.selectedCells m := by
  unfold selectedCells
  refine List.filter_congr fun c _ => ?_
  rw [same.hasMember]

/-- Sorting the modules anew does not change which stands inside which. -/
theorem standsIn_iff (same : d.Resorted d') : d'.StandsIn inner outer ↔ d.StandsIn inner outer := by
  unfold StandsIn
  simp only [same.module?_eq, same.selectedCells_eq]

theorem inHierarchy (same : d.Resorted d') (belongs : d.InHierarchy name) :
    d'.InHierarchy name := by
  induction belongs with
  | selected isSelected =>
    obtain ⟨arrived, selected⟩ := List.mem_filter.mp isSelected
    refine .selected (List.mem_filter.mpr ⟨same.modules.mem_iff.mp arrived, ?_⟩)
    rw [same.hasModule]
    exact selected
  | inside stands _ ih => exact .inside (same.standsIn_iff.mpr stands) ih

theorem sameHierarchy (same : d.Resorted d') : d.SameHierarchy d' where
  modules := fun _ => ⟨same.inHierarchy, same.symm.inHierarchy⟩
  inside := fun _ _ _ => same.standsIn_iff.symm

end Design.Resorted

namespace Query

variable {q : Query} {d d' : Design} {index : HierarchyIndex} {m n : Module} {v w : Declaration}

/-! ## Where the wire is -/

/-- A module of the hierarchy whose name contains the filter. The empty filter is in every name. -/
structure Candidate (q : Query) (d : Design) (index : HierarchyIndex) (m : Module) : Prop where
  arrived : m ∈ d.modules.toList
  placed : m.name ∈ index.order
  passes : q.filter.toList <:+: m.name.toList

/-- A candidate has the wire. -/
structure Has (q : Query) (d : Design) (index : HierarchyIndex) (m : Module) (w : Declaration) :
    Prop where
  candidate : q.Candidate d index m
  wire : m.wire? (Identifier.escape q.wire) = some w

/-- Two modules are the first that have the wire, in the order of the index. -/
structure FirstTwo (q : Query) (d : Design) (index : HierarchyIndex) (m n : Module) : Prop where
  first : ∃ w, q.Has d index m w
  second : ∃ w, q.Has d index n w
  ascending : index.order.idxOf m.name < index.order.idxOf n.name
  others : ∀ o w, q.Has d index o w →
    o = m ∨ o = n ∨ index.order.idxOf n.name < index.order.idxOf o.name

theorem mem_candidates_iff : m ∈ q.candidates d index ↔ q.Candidate d index m := by
  rw [candidates, List.mem_filter, List.mem_filterMap, Text.occursIn_iff_isInfix]
  constructor
  · rintro ⟨⟨name, placed, found⟩, passes⟩
    obtain ⟨arrived, rfl⟩ := d.module?_eq_some_iff.mp found
    exact ⟨arrived, placed, passes⟩
  · rintro ⟨arrived, placed, passes⟩
    exact ⟨⟨m.name, placed, d.module?_eq_some_iff.mpr ⟨arrived, rfl⟩⟩, passes⟩

theorem mem_places_iff : (m, w) ∈ q.places d index ↔ q.Has d index m w := by
  rw [places, List.mem_filterMap]
  constructor
  · rintro ⟨m', isCandidate, found⟩
    obtain ⟨w', declared, same⟩ := Option.map_eq_some_iff.mp found
    cases same
    exact ⟨mem_candidates_iff.mp isCandidate, declared⟩
  · rintro ⟨isCandidate, declared⟩
    exact ⟨m, mem_candidates_iff.mpr isCandidate, by rw [declared]; rfl⟩

/-- The places stand in the order of the index. -/
theorem pairwise_places (built : d.index = .ok index) : (q.places d index).Pairwise
    fun p p' => index.order.idxOf p.1.name < index.order.idxOf p'.1.name := by
  have ordered := Design.isHierarchyOrder_of_index built
  have modules : (index.order.filterMap d.module?).Pairwise
      fun m n => index.order.idxOf m.name < index.order.idxOf n.name := by
    refine List.pairwise_filterMap.mpr ((pairwise_idxOf ordered.nodup).imp ?_)
    intro a b less m isM n isN
    obtain ⟨-, rfl⟩ := d.module?_eq_some_iff.mp isM
    obtain ⟨-, rfl⟩ := d.module?_eq_some_iff.mp isN
    exact less
  refine List.pairwise_filterMap.mpr ((modules.filter _).imp ?_)
  intro m n less p isP p' isP'
  obtain ⟨_, -, rfl⟩ := Option.map_eq_some_iff.mp isP
  obtain ⟨_, -, rfl⟩ := Option.map_eq_some_iff.mp isP'
  exact less

/-! ## What comes of a query -/

/-- What comes of the places that were met, given whether a module passed the filter. -/
def settle (q : Query) (passed : Bool) : List (Module × Declaration) →
    Except QueryFault (Module × Declaration)
  | [place] => .ok place
  | (m, _) :: (n, _) :: _ => .error (.ambiguousWire q.wire [m.name, n.name])
  | [] => if passed then .error (.unknownWire q.wire) else .error (.unknownModule q.filter)

/-- A query is answered from the places it finds and from whether a module passed its filter. -/
theorem locate_eq_settle : q.locate d index =
    q.settle (q.filter == "" || !(q.candidates d index).isEmpty) (q.places d index) := by
  unfold locate
  match q.places d index with
  | [] =>
    dsimp only [settle]
    by_cases given : q.filter = ""
    · simp [given]
    · cases (q.candidates d index).isEmpty with
      | true => simp [given]
      | false => simp
  | [_] => rfl
  | _ :: _ :: _ => rfl

/-- A query is answered with a place exactly when it is the only one. -/
theorem locate_eq_ok_iff {place : Module × Declaration} :
    q.locate d index = .ok place ↔ q.places d index = [place] := by
  unfold locate
  match q.places d index with
  | [] =>
    dsimp only
    split <;> simp
  | [_] => simp
  | _ :: _ :: _ => simp

/-- A query is ambiguous when it finds two places or more, and the answer names the first two. -/
theorem locate_eq_ambiguousWire_iff {wire : String} {names : List String} :
    q.locate d index = .error (.ambiguousWire wire names) ↔ q.wire = wire ∧
      ∃ p p' rest, q.places d index = p :: p' :: rest ∧ [p.1.name, p'.1.name] = names := by
  unfold locate
  match q.places d index with
  | [] =>
    dsimp only
    split <;> simp
  | [_] => simp
  | p :: p' :: rest =>
    rw [Except.error.injEq, QueryFault.ambiguousWire.injEq]
    refine and_congr_right fun _ => ⟨fun same => ⟨p, p', rest, rfl, same⟩, ?_⟩
    rintro ⟨_, _, _, isRow, same⟩
    cases isRow
    exact same

/-- A query knows no module when it has a filter that no module passes. -/
theorem locate_eq_unknownModule_iff {filter : String} :
    q.locate d index = .error (.unknownModule filter) ↔
      q.filter = filter ∧ q.filter ≠ "" ∧ q.candidates d index = [] := by
  unfold locate
  cases met : q.places d index with
  | nil =>
    dsimp only
    split
    · next blame =>
      rw [List.isEmpty_iff] at blame
      simp [blame]
    · next blame =>
      rw [List.isEmpty_iff] at blame
      simp [blame]
  | cons p rest =>
    have some : q.candidates d index ≠ [] := by
      intro none
      rw [places, none] at met
      cases met
    cases rest with
    | nil => simp [some]
    | cons => simp [some]

/-- A query knows no wire when modules pass, or there is no filter, and none of them has the wire.
-/
theorem locate_eq_unknownWire_iff {wire : String} :
    q.locate d index = .error (.unknownWire wire) ↔
      q.wire = wire ∧ (q.filter = "" ∨ q.candidates d index ≠ []) ∧ q.places d index = [] := by
  unfold locate
  match q.places d index with
  | [] =>
    dsimp only
    split
    · next blame =>
      rw [List.isEmpty_iff] at blame
      simp [blame]
    · next blame =>
      rw [List.isEmpty_iff, not_and_or, not_not] at blame
      simp [blame]
  | [_] => simp
  | _ :: _ :: _ => simp

/-! ## Going through the candidates once -/

/-- What is known on the way along the order. -/
inductive Sighting where
  /-- There is a filter, and no module passed it. -/
  | nothing
  /-- There is no filter, or a module passed it, but the wire was not met. -/
  | passed
  /-- The wire was met in one place. -/
  | met (place : Module × Declaration)

/-- The places where the wire was met. -/
def Sighting.places : Sighting → List (Module × Declaration)
  | .met place => [place]
  | _ => []

/-- Whether the filter is not to blame. -/
def Sighting.hasPassed : Sighting → Bool
  | .nothing => false
  | _ => true

/-- Looks for the wire in a module that passed the filter. -/
def meet (q : Query) (known : Sighting) (m : Module) : Except QueryFault Sighting :=
  match m.wire? (Identifier.escape q.wire), known with
  | none, .met place => .ok (.met place)
  | none, _ => .ok .passed
  | some _, .met (n, _) => .error (.ambiguousWire q.wire [n.name, m.name])
  | some wire, _ => .ok (.met (m, wire))

/-- Whether a module passes the filter. -/
def admits (q : Query) (m : Module) : Bool := Text.occursIn q.filter m.name

/-- Looks at the next module of the order. -/
def sight (q : Query) (known : Sighting) (m : Module) : Except QueryFault Sighting :=
  if q.admits m then q.meet known m else .ok known

/-- What comes of the query at the end of the order. -/
def conclude (q : Query) : Sighting → Except QueryFault (Module × Declaration)
  | .nothing => .error (.unknownModule q.filter)
  | .passed => .error (.unknownWire q.wire)
  | .met place => .ok place

/-- What is known at the outset. -/
def outset (q : Query) : Sighting := if q.filter = "" then .passed else .nothing

/-- Goes along the order until the wire is met for the second time. -/
def walk (q : Query) (d : Design) (index : HierarchyIndex) :
    Except QueryFault (Module × Declaration) := do
  let known ← (index.order.filterMap d.module?).foldlM q.sight q.outset
  q.conclude known

/-- The places of the wire among modules that passed the filter. -/
def placesIn (q : Query) (row : List Module) : List (Module × Declaration) :=
  row.filterMap fun m => (m.wire? (Identifier.escape q.wire)).map fun wire => (m, wire)

/-- A module that passed the filter adds its place, if it has the wire. A second place ends the
walk, whatever comes behind it. -/
theorem meet_bind (q : Query) (known : Sighting) (m : Module) (further : List Module)
    {rest : Sighting → Except QueryFault (Module × Declaration)}
    (comes : ∀ known : Sighting, known.hasPassed = true →
      rest known = q.settle true (known.places ++ q.placesIn further)) :
    (q.meet known m >>= rest) = q.settle true (known.places ++ q.placesIn (m :: further)) := by
  unfold meet placesIn
  rw [List.filterMap_cons]
  cases m.wire? (Identifier.escape q.wire) with
  | none =>
    cases known with
    | met place => exact comes (.met place) rfl
    | nothing | passed => exact comes .passed rfl
  | some wire =>
    cases known with
    | met place => rfl
    | nothing | passed => exact comes (.met (m, wire)) rfl

/-- Going on from what is known one comes to what comes of all the places together. -/
theorem foldlM_sight (q : Query) (known : Sighting) (row : List Module) :
    (row.foldlM q.sight known >>= q.conclude) =
      let candidates := row.filter q.admits
      q.settle (known.hasPassed || !candidates.isEmpty)
        (known.places ++ q.placesIn candidates) := by
  -- on the row; what was met before stands in front of what is met in the rest
  induction row generalizing known with
  | nil => cases known <;> rfl
  | cons m rest ih =>
    rw [List.foldlM_cons, bind_assoc, sight]
    cases passes : q.admits m with
    | false =>
      rw [List.filter_cons_of_neg (by simp [passes])]
      exact ih known
    | true =>
      rw [List.filter_cons_of_pos passes]
      have others : ∀ known : Sighting, known.hasPassed = true →
          (rest.foldlM q.sight known >>= q.conclude) =
            q.settle true (known.places ++ q.placesIn (rest.filter q.admits)) := by
        intro known passed
        rw [ih known, passed]
        rfl
      refine (q.meet_bind known m _ others).trans ?_
      simp

/-- Leaving at the second place changes nothing. -/
theorem walk_eq_locate : q.walk d index = q.locate d index := by
  rw [locate_eq_settle]
  refine (q.foldlM_sight q.outset _).trans ?_
  have places : q.outset.places = [] := by
    unfold outset
    split <;> rfl
  have passed : q.outset.hasPassed = (q.filter == "") := by
    unfold outset
    split
    · next none => rw [none]; rfl
    · next given => exact (beq_false_of_ne given).symm
  rw [places, passed]
  rfl

/-! ## The five ways a query can end -/

/-- Where there are two places, those that come first are the first two. -/
theorem firstTwo_of_places (built : d.index = .ok index) {p p' : Module × Declaration}
    {rest : List (Module × Declaration)} (isRow : q.places d index = p :: p' :: rest) :
    q.FirstTwo d index p.1 p'.1 := by
  have ascending := pairwise_places (q := q) built
  rw [isRow, List.pairwise_cons, List.pairwise_cons] at ascending
  obtain ⟨behind, later, -⟩ := ascending
  refine ⟨⟨p.2, ?_⟩, ⟨p'.2, ?_⟩, behind p' List.mem_cons_self, fun o w has => ?_⟩
  · rw [← mem_places_iff, isRow]
    exact List.mem_cons_self
  · rw [← mem_places_iff, isRow]
    exact List.mem_cons_of_mem _ List.mem_cons_self
  · rw [← mem_places_iff, isRow] at has
    rcases List.mem_cons.mp has with rfl | has
    · exact .inl rfl
    · rcases List.mem_cons.mp has with rfl | has
      · exact .inr (.inl rfl)
      · exact .inr (.inr (later _ has))

/-- No place is found twice, as no module is twice in the order. -/
theorem nodup_places (built : d.index = .ok index) : (q.places d index).Nodup := by
  refine (pairwise_places built).imp fun {p p'} less same => ?_
  rw [same] at less
  exact Nat.lt_irrefl _ less

theorem locate_eq_ok_iff_has (built : d.index = .ok index) :
    q.locate d index = .ok (m, w) ↔
      q.Has d index m w ∧ ∀ n v, q.Has d index n v → n = m := by
  rw [locate_eq_ok_iff, eq_singleton_iff (nodup_places built), mem_places_iff]
  refine and_congr_right fun has => ?_
  constructor
  · intro only n v hasToo
    exact congrArg Prod.fst (only (n, v) (mem_places_iff.mpr hasToo))
  · rintro only ⟨n, v⟩ isPlace
    have hasToo := mem_places_iff.mp isPlace
    obtain rfl := only n v hasToo
    rw [Option.some.inj (hasToo.wire.symm.trans has.wire)]

theorem ambiguous_iff_has (built : d.index = .ok index) :
    (∃ wire names, q.locate d index = .error (.ambiguousWire wire names)) ↔
      ∃ m v n w, q.Has d index m v ∧ q.Has d index n w ∧ m ≠ n := by
  simp only [locate_eq_ambiguousWire_iff]
  constructor
  · rintro ⟨_, _, -, p, p', rest, isRow, -⟩
    obtain ⟨⟨v, first⟩, ⟨w, second⟩, less, -⟩ := firstTwo_of_places built isRow
    refine ⟨p.1, v, p'.1, w, first, second, fun same => ?_⟩
    rw [same] at less
    exact Nat.lt_irrefl _ less
  · rintro ⟨m, v, n, w, first, second, apart⟩
    have isFirst := mem_places_iff.mpr first
    have isSecond := mem_places_iff.mpr second
    match isRow : q.places d index with
    | [] =>
      rw [isRow] at isFirst
      cases isFirst
    | [place] =>
      rw [isRow, List.mem_singleton] at isFirst isSecond
      exact absurd (congrArg Prod.fst (isFirst.trans isSecond.symm)) apart
    | p :: p' :: rest => exact ⟨q.wire, _, rfl, p, p', rest, rfl, rfl⟩

theorem candidates_eq_nil_iff : q.candidates d index = [] ↔ ∀ m, ¬ q.Candidate d index m := by
  rw [List.eq_nil_iff_forall_not_mem]
  exact forall_congr' fun m => not_congr mem_candidates_iff

theorem places_eq_nil_iff : q.places d index = [] ↔ ∀ m w, ¬ q.Has d index m w := by
  rw [List.eq_nil_iff_forall_not_mem, Prod.forall]
  exact forall_congr' fun m => forall_congr' fun w => not_congr mem_places_iff

/-- In a design with the same modules and the same part selected a query comes to the same end. -/
theorem locate_resorted (same : d.Resorted d') {index' : HierarchyIndex}
    (order : index'.order = index.order) : q.locate d' index' = q.locate d index := by
  have candidates : q.candidates d' index' = q.candidates d index := by
    unfold candidates
    rw [order]
    simp only [same.module?_eq]
  unfold locate places
  rw [candidates]

/-- **Locating.** What comes of a query follows from which candidates have the wire. It is a place
just when the candidate of the place has it and no other one does; the wire is ambiguous just when
two candidates have it, and the first two are named; the filter is to blame just when it lets no
module pass; and the wire is to blame just when there are candidates, or there is no filter, and
none has it. Going along the order once comes to the same end, and so does the query in a design
whose modules arrived in another order. -/
theorem locate_classifies (built : d.index = .ok index) (q : Query) :
    (∀ m w, q.locate d index = .ok (m, w) ↔
      q.Has d index m w ∧ ∀ n v, q.Has d index n v → n = m) ∧
    ((∃ wire names, q.locate d index = .error (.ambiguousWire wire names)) ↔
      ∃ m v n w, q.Has d index m v ∧ q.Has d index n w ∧ m ≠ n) ∧
    (∀ wire names, q.locate d index = .error (.ambiguousWire wire names) →
      q.wire = wire ∧ ∃ m n, [m.name, n.name] = names ∧ q.FirstTwo d index m n) ∧
    (∀ filter, q.locate d index = .error (.unknownModule filter) ↔
      q.filter = filter ∧ q.filter ≠ "" ∧ ∀ m, ¬ q.Candidate d index m) ∧
    (∀ wire, q.locate d index = .error (.unknownWire wire) ↔
      q.wire = wire ∧ (q.filter = "" ∨ ∃ m, q.Candidate d index m) ∧
        ∀ m w, ¬ q.Has d index m w) ∧
    q.walk d index = q.locate d index ∧
    ∀ d', d.Resorted d' →
      ∃ index', d'.index = .ok index' ∧ q.locate d' index' = q.locate d index := by
  refine ⟨fun m w => locate_eq_ok_iff_has built, ambiguous_iff_has built, fun wire names two => ?_,
    fun filter => ?_, fun wire => ?_, walk_eq_locate, fun d' same => ?_⟩
  · obtain ⟨isWire, p, p', rest, isRow, isNames⟩ := locate_eq_ambiguousWire_iff.mp two
    exact ⟨isWire, p.1, p'.1, isNames, firstTwo_of_places built isRow⟩
  · rw [locate_eq_unknownModule_iff, candidates_eq_nil_iff]
  · rw [locate_eq_unknownWire_iff, places_eq_nil_iff, ne_eq, candidates_eq_nil_iff]
    simp only [not_forall, not_not]
  · obtain ⟨index', built', order⟩ := same.sameHierarchy.exists_index built
    exact ⟨index', built', locate_resorted same order⟩

/-- Two modules that both have a wire `x`. -/
def twins : Design where
  modules := ⟨["\\b", "\\a"].map fun name =>
    ⟨name, ⟨[⟨⟨"\\x", 1, .declared name⟩, none, []⟩], List.nodup_singleton _⟩, ∅, [], []⟩, by decide⟩
  top := none
  selection := .everything

/-- The design with its modules the other way round. -/
def twinsReversed : Design := { twins with modules := twins.modules.reversed }

theorem error_of_map {ε α β : Type} {f : α → β} {r : Except ε α} {fault : ε}
    (isFault : r.map f = .error fault) : r = .error fault := by
  cases r with
  | error _ => exact congrArg _ (Except.error.inj isFault)
  | ok _ => cases isFault

theorem locate_classifies_twins : ∃ index, twins.index = .ok index ∧
    (Query.mk "x" "").locate twins index = .error (.ambiguousWire "x" ["\\a", "\\b"]) ∧
    (∃ m n, [m.name, n.name] = ["\\a", "\\b"] ∧ (Query.mk "x" "").FirstTwo twins index m n) ∧
    (∀ m, ¬ (Query.mk "x" "c").Candidate twins index m) ∧
    (∀ m w, ¬ (Query.mk "y" "b").Has twins index m w) ∧
    (∃ m w, (Query.mk "x" "b").Has twins index m w ∧
      ∀ n v, (Query.mk "x" "b").Has twins index n v → n = m) ∧
    ∃ index', twinsReversed.index = .ok index' ∧
      (Query.mk "x" "").locate twinsReversed index' =
        .error (.ambiguousWire "x" ["\\a", "\\b"]) := by
  have answers : twins.index.toOption.map (fun index =>
      [Query.mk "x" "", .mk "x" "c", .mk "y" "b", .mk "x" "b"].map fun q =>
        (q.locate twins index).map fun place => place.1.name) =
      some [.error (.ambiguousWire "x" ["\\a", "\\b"]), .error (.unknownModule "c"),
        .error (.unknownWire "y"), .ok "\\b"] := by
    decide +kernel
  have resorted : twins.Resorted twinsReversed :=
    ⟨twins.modules.perm_reversed, fun _ => rfl, fun _ _ => rfl⟩
  cases built : twins.index with
  | error fault =>
    rw [built] at answers
    cases answers
  | ok index =>
    rw [built] at answers
    simp only [Except.toOption, Option.map_some, List.map_cons, List.map_nil, Option.some.injEq,
      List.cons.injEq, and_true] at answers
    obtain ⟨two, noModule, noWire, one⟩ := answers
    obtain ⟨-, -, named, -, -, -, reordered⟩ := locate_classifies built (.mk "x" "")
    obtain ⟨-, -, -, blamesFilter, -⟩ := locate_classifies built (.mk "x" "c")
    obtain ⟨-, -, -, -, blamesWire, -⟩ := locate_classifies built (.mk "y" "b")
    obtain ⟨locates, -⟩ := locate_classifies built (.mk "x" "b")
    obtain ⟨index', built', same⟩ := reordered _ resorted
    refine ⟨index, rfl, error_of_map two, (named _ _ (error_of_map two)).2,
      ((blamesFilter _).mp (error_of_map noModule)).2.2,
      ((blamesWire _).mp (error_of_map noWire)).2.2, ?_, index', built',
      same.trans (error_of_map two)⟩
    cases answer : (Query.mk "x" "b").locate twins index with
    | error _ =>
      rw [answer] at one
      cases one
    | ok place => exact ⟨place.1, place.2, (locates _ _).mp answer⟩

end Query

end NearestMux
