import Mathlib.Data.List.Forall2
import Mathlib.Data.List.Perm.Basic
import Mathlib.Data.Option.Basic
import NearestMux.Roster

/-!
# Rosters that differ

Two designs are compared roster by roster: the members are changed in their places, or some of them
are left out, or they stand in another order. This module says what each of these does to the
question that a roster answers, which member has a name.
-/

namespace NearestMux.Roster

variable {α : Type} [Named α] {r r' : Roster α}

/-! ## Members changed, members left out -/

/-- The roster with every member changed in its place. -/
def mapMembers (r : Roster α) (f : α → α) (keeps : ∀ a, Named.name (f a) = Named.name a) :
    Roster α where
  toList := r.toList.map f
  nodup := by
    have names : (r.toList.map f).map Named.name = r.names := by
      rw [List.map_map]
      exact List.map_congr_left fun a _ => keeps a
    exact names ▸ r.nodup

/-- Members that are changed under their names are found under these. -/
theorem find?_mapMembers (r : Roster α) (f : α → α) (keeps : ∀ a, Named.name (f a) = Named.name a)
    (name : String) : (r.mapMembers f keeps).find? name = (r.find? name).map f := by
  rw [find?, find?, mapMembers, List.find?_map]
  simp only [Function.comp_def, keeps]

/-- The members that pass a test, in their order. -/
def keep (r : Roster α) (p : α → Bool) : Roster α where
  toList := r.toList.filter p
  nodup := (List.filter_sublist.map Named.name).nodup r.nodup

/-- Of what is kept out nothing is found. -/
theorem find?_keep (r : Roster α) (p : α → Bool) (name : String) :
    (r.keep p).find? name = (r.find? name).filter p := by
  refine Option.ext fun a => ?_
  rw [find?_eq_some_iff, Option.filter_eq_some_iff, find?_eq_some_iff, keep, List.mem_filter,
    and_right_comm]

/-! ## Members in another order -/

/-- A row of the members of a roster, in any order, makes a roster. -/
theorem nodup_of_perm {xs : List α} (perm : xs.Perm r.toList) : (xs.map Named.name).Nodup :=
  (perm.map Named.name).nodup_iff.mpr r.nodup

/-- The roster the other way round. -/
def reversed (r : Roster α) : Roster α where
  toList := r.toList.reverse
  nodup := r.nodup_of_perm (List.reverse_perm r.toList)

theorem perm_reversed (r : Roster α) : r.toList.Perm r.reversed.toList :=
  (List.reverse_perm r.toList).symm

/-- What is found under a name does not depend on the order. -/
theorem find?_eq_of_perm (perm : r.toList.Perm r'.toList) (name : String) :
    r.find? name = r'.find? name := by
  refine Option.ext fun a => ?_
  rw [r.find?_eq_some_iff, r'.find?_eq_some_iff, perm.mem_iff]

/-- Members that agree are found under the same names. -/
theorem rel_find? {R : α → α → Prop} (each : List.Forall₂ R r.toList r'.toList)
    (named : ∀ a b, R a b → Named.name a = Named.name b) (name : String) :
    Option.Rel R (r.find? name) (r'.find? name) := by
  unfold find?
  generalize r.toList = xs at each
  generalize r'.toList = ys at each
  induction each with
  | nil => exact .none
  | @cons a b _ _ first _ ih =>
    rw [List.find?_cons, List.find?_cons, named a b first]
    split
    · exact .some first
    · exact ih

end NearestMux.Roster
