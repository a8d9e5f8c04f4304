/-!
# Rosters — named things, in order of arrival, no name twice

A design is tables within tables: modules of a design, wires and cells of a module, bindings of a
cell. Each table answers by name, lists its members in the order in which they arrived, and never
holds a name twice. `Roster` is that table. The name is read off the member (`Named`), so a member
cannot stand under a name that is not its own, and the discipline that no name repeats is a field of
the type: no operation can break it.

Two ways to enter a member are kept apart. `add?` is for declarations and refuses a name that is
taken. `put` is for assignments: a name that is taken keeps its place and takes the new member.
-/

namespace NearestMux

/-- What has a name of its own. -/
class Named (α : Type) where
  /-- The name under which the thing is filed. -/
  name : α → String

/-- Members with different names, in order of arrival. -/
structure Roster (α : Type) [Named α] where
  /-- The members, the earliest first. -/
  toList : List α
  /-- No name stands twice. -/
  nodup : (toList.map Named.name).Nodup

namespace Roster

variable {α : Type} [Named α]

/-- The roster without members. -/
def empty : Roster α := ⟨[], List.nodup_nil⟩

instance : EmptyCollection (Roster α) := ⟨empty⟩

instance : Inhabited (Roster α) := ⟨empty⟩

/-- The number of members. -/
def size (r : Roster α) : Nat := r.toList.length

/-- The names in order of arrival. -/
def names (r : Roster α) : List String := r.toList.map Named.name

/-- The member of the given name. -/
def find? (r : Roster α) (name : String) : Option α :=
  r.toList.find? fun a => Named.name a == name

/-- Whether a name is taken. -/
def contains (r : Roster α) (name : String) : Bool := r.names.contains name

theorem find?_eq_some_of_mem {xs : List α} (h : (xs.map Named.name).Nodup) {a : α} (ha : a ∈ xs) :
    (xs.find? fun b => Named.name b == Named.name a) = some a := by
  induction xs with
  | nil => cases ha
  | cons b rest ih =>
    rw [List.map_cons, List.nodup_cons] at h
    rcases List.mem_cons.mp ha with rfl | ha
    · rw [List.find?_cons, beq_self_eq_true]
    · have differ : Named.name b ≠ Named.name a := fun same =>
        h.1 (same ▸ List.mem_map_of_mem ha)
      rw [List.find?_cons_of_neg (by simpa using differ)]
      exact ih h.2 ha

/-- A roster answers with the member of the name, and with nothing else. -/
theorem find?_eq_some_iff (r : Roster α) {name : String} {a : α} :
    r.find? name = some a ↔ a ∈ r.toList ∧ Named.name a = name := by
  constructor
  · intro h
    exact ⟨List.mem_of_find?_eq_some h, by simpa using List.find?_some h⟩
  · rintro ⟨ha, rfl⟩
    exact find?_eq_some_of_mem r.nodup ha

theorem nodup_append_singleton {xs : List String} {x : String} (h : xs.Nodup) (hx : x ∉ xs) :
    (xs ++ [x]).Nodup := by
  rw [List.nodup_append]
  refine ⟨h, by simp, ?_⟩
  intro a ha b hb hab
  rw [List.mem_singleton] at hb
  exact hx (hb ▸ hab ▸ ha)

/-- Enters a member at the end; `none` when its name is taken. -/
def add? (r : Roster α) (a : α) : Option (Roster α) :=
  if h : Named.name a ∈ r.names then none
  else some ⟨r.toList ++ [a], by
    rw [List.map_append]
    exact nodup_append_singleton r.nodup h⟩

/-- A member steps in for its namesake, all others stay. -/
def stepIn (a b : α) : α := if Named.name b = Named.name a then a else b

theorem name_stepIn (a b : α) : Named.name (stepIn a b) = Named.name b := by
  unfold stepIn
  split
  · next h => exact h.symm
  · rfl

theorem map_name_map_stepIn (a : α) (xs : List α) :
    (xs.map (stepIn a)).map Named.name = xs.map Named.name := by
  rw [List.map_map]
  exact List.map_congr_left fun b _ => name_stepIn a b

/-- Enters a member, in the place of its namesake if there is one, at the end otherwise. -/
def put (r : Roster α) (a : α) : Roster α :=
  if h : Named.name a ∈ r.names then
    ⟨r.toList.map (stepIn a), (map_name_map_stepIn a r.toList).symm ▸ r.nodup⟩
  else
    ⟨r.toList ++ [a], by
      rw [List.map_append]
      exact nodup_append_singleton r.nodup h⟩

/-- Removes the member of the given name; a name that is not taken is no fault. -/
def erase (r : Roster α) (name : String) : Roster α :=
  ⟨r.toList.filter fun a => Named.name a != name,
    (List.filter_sublist.map Named.name).nodup r.nodup⟩

/-- The members entered one after the other, a later namesake in the place of an earlier one. -/
def ofList (xs : List α) : Roster α := xs.foldl put empty

theorem names_put_of_mem (r : Roster α) (a : α) (h : Named.name a ∈ r.names) :
    (r.put a).names = r.names := by
  unfold put
  rw [dif_pos h]
  exact map_name_map_stepIn a r.toList

theorem names_put_of_not_mem (r : Roster α) (a : α) (h : Named.name a ∉ r.names) :
    (r.put a).names = r.names ++ [Named.name a] := by
  unfold put
  rw [dif_neg h]
  simp [names]

theorem add?_eq_none_iff (r : Roster α) (a : α) : r.add? a = none ↔ Named.name a ∈ r.names := by
  unfold add?
  split <;> simp_all

end Roster

end NearestMux
