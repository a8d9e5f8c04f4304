import Mathlib.Data.List.Induction
import Mathlib.Data.List.Forall2
import Mathlib.Data.List.Nodup

/-!
# Rows — what the library of lists leaves to be said

Nothing here knows of netlists. A document and what is read from it are rows that answer to each
other one to one, an order of modules is a row without repetition, and the bits of a constant are
rows of one length behind one another; these are the facts about such rows that are used.
-/

namespace NearestMux

variable {α β : Type} {as : List α} {bs : List β}

/-! ## Rows that answer to each other -/

/-- What every answer has, whatever it answers to, all members of the second row have. -/
theorem forall_of_forall₂ {R : α → β → Prop} {p : β → Prop} (each : List.Forall₂ R as bs)
    (settles : ∀ a b, R a b → p b) : ∀ b ∈ bs, p b := by
  induction each with
  | nil => exact List.forall_mem_nil p
  | cons first _ ih => exact List.forall_mem_cons.mpr ⟨settles _ _ first, ih⟩

/-- Where a second relation comes down to a property of what is answered to, so it does for rows. -/
theorem forall₂_iff_forall {R S : α → β → Prop} {p : α → Prop} (each : List.Forall₂ R as bs)
    (settles : ∀ a b, R a b → (S a b ↔ p a)) : List.Forall₂ S as bs ↔ ∀ a ∈ as, p a := by
  induction each with
  | nil => exact ⟨fun _ => List.forall_mem_nil p, fun _ => .nil⟩
  | cons first _ ih => rw [List.forall₂_cons, List.forall_mem_cons, settles _ _ first, ih]

/-! ## Rows without repetition -/

theorem nodup_eraseDups (names : List String) : names.eraseDups.Nodup := by
  -- by induction on the length, since the first name is erased from the rest before it goes on
  induction size : names.length using Nat.strongRecOn generalizing names with
  | ind size ih =>
    cases names with
    | nil => exact List.nodup_nil
    | cons first rest =>
      have shorter := List.length_filter_le (fun name => !name == first) rest
      rw [List.length_cons] at size
      rw [List.eraseDups_cons, List.nodup_cons, List.mem_eraseDups, List.mem_filter]
      exact ⟨fun again => by simp at again, ih _ (by omega) _ rfl⟩

/-- The members of a row stand in the order of their places. -/
theorem pairwise_idxOf {names : List String} (nodup : names.Nodup) :
    names.Pairwise fun a b => names.idxOf a < names.idxOf b := by
  refine List.pairwise_iff_getElem.mpr fun i j hi hj less => ?_
  rwa [nodup.idxOf_getElem, nodup.idxOf_getElem]

/-- A row that has one member, and no other, is that member alone. -/
theorem eq_singleton_iff (nodup : as.Nodup) {a : α} : as = [a] ↔ a ∈ as ∧ ∀ b ∈ as, b = a := by
  rw [← List.perm_singleton, List.perm_ext_iff_of_nodup nodup (List.nodup_singleton a)]
  simp only [List.mem_singleton]
  constructor
  · intro same
    exact ⟨(same a).mpr rfl, fun b hb => (same b).mp hb⟩
  · rintro ⟨mem, only⟩ b
    exact ⟨only b, fun same => same ▸ mem⟩

/-! ## Rows behind one another -/

/-- A place behind the first block of a row, counted from where that block ends. -/
theorem div_mod_of_le {size k : Nat} (hsize : 0 < size) (behind : size ≤ k) :
    k / size = (k - size) / size + 1 ∧ k % size = (k - size) % size := by
  constructor
  · rw [← Nat.add_div_right _ hsize]
    congr 1
    omega
  · exact Nat.mod_eq_sub_mod behind

/-- In a row of blocks of one size, a place is a block and a place in the block. -/
theorem getElem?_flatMap {f : α → List β} {size : Nat} (hsize : 0 < size)
    (h : ∀ a ∈ as, (f a).length = size) (k : Nat) :
    (as.flatMap f)[k]? = as[k / size]?.bind fun a => (f a)[k % size]? := by
  induction as generalizing k with
  | nil => rfl
  | cons a rest ih =>
    obtain ⟨first, others⟩ := List.forall_mem_cons.mp h
    rw [List.flatMap_cons]
    by_cases inFirst : k < size
    · rw [List.getElem?_append_left (first ▸ inFirst), Nat.div_eq_of_lt inFirst,
        Nat.mod_eq_of_lt inFirst]
      rfl
    · have behind : (f a).length ≤ k := by omega
      obtain ⟨place, within⟩ := div_mod_of_le hsize (Nat.not_lt.mp inFirst)
      rw [List.getElem?_append_right behind, first, ih others, place, within,
        List.getElem?_cons_succ]

/-- So many blocks of one size are so many times as long. -/
theorem length_flatMap_of_length {f : α → List β} {size : Nat}
    (h : ∀ a ∈ as, (f a).length = size) : (as.flatMap f).length = size * as.length := by
  induction as with
  | nil => rfl
  | cons a rest ih =>
    obtain ⟨first, others⟩ := List.forall_mem_cons.mp h
    rw [List.flatMap_cons, List.length_append, first, ih others, List.length_cons, Nat.mul_succ,
      Nat.add_comm]

/-- Of a row in which members are repeated, or left out, the last one is the last that stays. -/
theorem getLast?_flatMap_replicate (times : α → Nat) (f : α → β) (row : List α) :
    (row.flatMap fun a => List.replicate (times a) (f a)).getLast? =
      ((row.filter fun a => times a ≠ 0).getLast?).map f := by
  induction row using List.reverseRecOn with
  | nil => rfl
  | append_singleton row a ih =>
    rw [List.flatMap_append, List.getLast?_append, ih, List.filter_append, List.getLast?_append,
      List.flatMap_singleton, List.getLast?_replicate]
    by_cases gone : times a = 0
    · simp [gone]
    · simp [gone]

end NearestMux
