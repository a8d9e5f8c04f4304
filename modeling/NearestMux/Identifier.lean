/-!
# Identifiers — the names of a netlist

A name that a person gave is public and starts with a backslash; a name that a tool made up starts
with a dollar sign. Everything in a design is filed under a name of one of these two kinds. A name
that carries neither mark is a person's, and filing it puts the backslash in front.
-/

namespace NearestMux.Identifier

/-- The name under which a thing is filed: a name without a mark is made public. -/
def escape (name : String) : String :=
  match name.toList with
  | '\\' :: _ => name
  | '$' :: _ => name
  | cs => String.ofList ('\\' :: cs)

/-- A name without the mark of a public one. -/
def unescape (name : String) : String :=
  match name.toList with
  | '\\' :: cs => String.ofList cs
  | _ => name

/-- Whether a name is public. -/
def isPublic (name : String) : Bool := name.toList.head? == some '\\'

/-- A name is marked when filing leaves it as it is. -/
def IsMarked (name : String) : Prop :=
  name.toList.head? = some '\\' ∨ name.toList.head? = some '$'

theorem escape_of_isMarked {name : String} (h : IsMarked name) : escape name = name := by
  unfold escape
  split
  · rfl
  · rfl
  · next h₁ h₂ =>
    rcases h with h | h
    · cases hc : name.toList with
      | nil => simp [hc] at h
      | cons c cs =>
        rw [hc, List.head?_cons, Option.some.injEq] at h
        exact absurd (h ▸ hc) (h₁ cs)
    · cases hc : name.toList with
      | nil => simp [hc] at h
      | cons c cs =>
        rw [hc, List.head?_cons, Option.some.injEq] at h
        exact absurd (h ▸ hc) (h₂ cs)

theorem isMarked_escape (name : String) : IsMarked (escape name) := by
  unfold escape
  split
  · next h => exact Or.inl (by rw [h]; rfl)
  · next h => exact Or.inr (by rw [h]; rfl)
  · exact Or.inl (by rw [String.toList_ofList]; rfl)

theorem escape_escape (name : String) : escape (escape name) = escape name :=
  escape_of_isMarked (isMarked_escape name)

end NearestMux.Identifier
