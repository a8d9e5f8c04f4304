/-!
# Occurrence — one text somewhere in another

A text occurs in another when some end of the other starts with it. The empty text occurs in every
text.
-/

namespace NearestMux.Text

/-- Whether a test accepts some end of a row: the row itself, what is left of it, or the empty row.
-/
def someEnd {α : Type} (test : List α → Bool) : List α → Bool
  | [] => test []
  | c :: rest => test (c :: rest) || someEnd test rest

/-- Whether a text occurs in another one. -/
def occursIn (part whole : String) : Bool :=
  someEnd (fun tail => part.toList.isPrefixOf tail) whole.toList

theorem someEnd_eq_true_iff {α : Type} (test : List α → Bool) (xs : List α) :
    someEnd test xs = true ↔ ∃ tail, tail <:+ xs ∧ test tail = true := by
  induction xs with
  | nil => simp [someEnd, List.suffix_nil]
  | cons c rest ih =>
    rw [someEnd, Bool.or_eq_true, ih]
    constructor
    · rintro (h | ⟨tail, hs, h⟩)
      · exact ⟨c :: rest, List.suffix_refl _, h⟩
      · exact ⟨tail, hs.trans (List.suffix_cons c rest), h⟩
    · rintro ⟨tail, hs, h⟩
      rcases List.suffix_cons_iff.mp hs with rfl | hs
      · exact Or.inl h
      · exact Or.inr ⟨tail, hs, h⟩

/-- A text occurs in another when its characters stand there side by side. -/
theorem occursIn_iff_isInfix (part whole : String) :
    occursIn part whole = true ↔ part.toList <:+: whole.toList := by
  rw [occursIn, someEnd_eq_true_iff]
  simp only [List.isPrefixOf_iff_prefix, List.infix_iff_prefix_suffix]
  exact ⟨fun ⟨tail, hs, hp⟩ => ⟨tail, hp, hs⟩, fun ⟨tail, hp, hs⟩ => ⟨tail, hs, hp⟩⟩

end NearestMux.Text
