import NearestMux.Proofs.Text.Digits
import NearestMux.Signal.Shape

/-!
# The grammar of a signal text

`Signal.Shape` reads a text from its front: the longest row of digits, the longest row of characters
of a name, the longest row of blanks. This module says without an order of reading what the texts
are made of, and shows that the reader takes just these (`ofChars?_eq_some_iff`).

A constant is a numeral, an apostrophe, the letter of a base and a row of digits. A reference is a
name, then blanks, then nothing or a bracketed index or two with a colon between them; blanks may
stand around an index, not inside one and not behind the closing bracket. The two shapes exclude
each other by a rule, not by their characters: `1'b0` is a name, too, and it is read as a constant.

A numeral is told from what stands around it, and may have any number of digits; whether it is read
as a number is no question of the shape.
-/

namespace NearestMux

namespace Text

/-- A row of blanks, perhaps an empty one. -/
def Blanks (cs : List Char) : Prop := ∀ c ∈ cs, isBlank c = true

/-- A row of decimal digits, not an empty one. -/
structure Numeral (cs : List Char) : Prop where
  nonempty : cs ≠ []
  digits : ∀ c ∈ cs, isDecimal c = true

end Text

namespace SignalShape

open Text

variable {cs rest name width digits : List Char} {range : Option (List Char × List Char)}
  {base : Base} {shape : SignalShape}

/-- The letters that stand for a base. -/
def letters : Base → List Char
  | .binary => ['b', 'B']
  | .hexadecimal => ['h', 'H']
  | .decimal => ['d', 'D']

/-- The characters that may stand among the digits of a constant: the hexadecimal digits, the
unknown and the floating bit, and the underscore. -/
def constantDigits : List Char := "0123456789abcdefABCDEFxXzZ_".toList

/-- A text that is a constant of a width in a base, with a row of digits. -/
inductive IsConstant : List Char → List Char → Base → List Char → Prop where
  | intro {width digits : List Char} {letter : Char} {base : Base}
      (numeral : Numeral width) (isBase : letter ∈ letters base)
      (nonempty : digits ≠ []) (allDigits : ∀ c ∈ digits, c ∈ constantDigits) :
      IsConstant (width ++ '\x27' :: letter :: digits) width base digits

/-- A text that may name a wire: not empty, without blanks and without an opening bracket. -/
structure IsName (cs : List Char) : Prop where
  nonempty : cs ≠ []
  plain : ∀ c ∈ cs, c ≠ '[' ∧ isBlank c = false

/-- A numeral with blanks around it. -/
inductive IsIndex : List Char → List Char → Prop where
  | intro {before digits after : List Char} (blank : Blanks before)
      (numeral : Numeral digits) (blank' : Blanks after) :
      IsIndex (before ++ digits ++ after) digits

/-- A text that refers to a wire by its name, whole or from one index to another. -/
inductive IsReference : List Char → List Char → Option (List Char × List Char) → Prop where
  | whole {name blanks : List Char} (isName : IsName name) (blank : Blanks blanks) :
      IsReference (name ++ blanks) name none
  | bit {name blanks index digits : List Char} (isName : IsName name) (blank : Blanks blanks)
      (isIndex : IsIndex index digits) :
      IsReference (name ++ blanks ++ '[' :: (index ++ [']'])) name (some (digits, digits))
  | range {name blanks high low hi lo : List Char} (isName : IsName name)
      (blank : Blanks blanks) (isHigh : IsIndex high hi) (isLow : IsIndex low lo) :
      IsReference (name ++ blanks ++ '[' :: (high ++ ':' :: (low ++ [']']))) name (some (hi, lo))

/-! ## Constants -/

/-- A letter stands for a base exactly when it is one of the letters of that base. -/
theorem ofChar?_eq_some_iff {letter : Char} {base : Base} :
    Base.ofChar? letter = some base ↔ letter ∈ letters base := by
  unfold Base.ofChar?
  constructor
  · intro h
    split at h
    · next isLetter => cases h; simpa [letters] using isLetter
    · split at h
      · next isLetter => cases h; simpa [letters] using isLetter
      · split at h
        · next isLetter => cases h; simpa [letters] using isLetter
        · cases h
  · intro h
    cases base <;> simp only [letters, List.mem_cons, List.not_mem_nil, or_false] at h <;>
      rcases h with rfl | rfl <;> rfl

theorem mem_constantDigits_of_code : ∀ n < 0x67,
    (0x30 ≤ n ∧ n ≤ 0x39 ∨ 0x41 ≤ n ∧ n ≤ 0x46 ∨ 0x61 ≤ n ∧ n ≤ 0x66) →
      Char.ofNat n ∈ constantDigits := by
  decide

/-- The characters in the range of digits are those listed. -/
theorem isConstantDigit_iff {c : Char} : isConstantDigit c = true ↔ c ∈ constantDigits := by
  constructor
  · intro h
    simp only [isConstantDigit, Bool.or_eq_true, beq_iff_eq] at h
    rcases h with ((((isHex | rfl) | rfl) | rfl) | rfl) | rfl
    · rw [← Char.ofNat_toNat c]
      have range : 0x30 ≤ c.toNat ∧ c.toNat ≤ 0x39 ∨ 0x41 ≤ c.toNat ∧ c.toNat ≤ 0x46 ∨
          0x61 ≤ c.toNat ∧ c.toNat ≤ 0x66 := by
        simp only [hexValue?] at isHex
        split at isHex
        · next digit => exact Or.inl digit
        · split at isHex
          · next capital => exact Or.inr (Or.inl capital)
          · split at isHex
            · next small => exact Or.inr (Or.inr small)
            · cases isHex
      exact mem_constantDigits_of_code c.toNat (by omega) range
    all_goals decide
  · exact List.all_eq_true.mp (by decide) c

theorem IsConstant.allDigits (h : IsConstant cs width base digits) :
    ∀ c ∈ digits, c ∈ constantDigits := by
  cases h with
  | intro _ _ _ allDigits => exact allDigits

theorem constant?_of_isConstant (h : IsConstant cs width base digits) :
    constant? cs = some (.constant width base digits) := by
  cases h with
  | @intro width digits letter base numeral isBase nonempty allDigits =>
    have apostrophe : ∀ c ∈ ('\x27' :: letter :: digits).head?, isDecimal c = false := by
      rintro c ⟨⟩
      decide
    have someWidth : width.isEmpty = false := by simpa using numeral.nonempty
    have someDigits : digits.isEmpty = false := by simpa using nonempty
    have all : digits.all isConstantDigit = true :=
      List.all_eq_true.mpr fun c hc => isConstantDigit_iff.mpr (allDigits c hc)
    simp only [constant?, takeWhile_append numeral.digits apostrophe,
      dropWhile_append numeral.digits apostrophe, ofChar?_eq_some_iff.mpr isBase, someWidth,
      someDigits, all]
    rfl

theorem isConstant_of_constant? (h : constant? cs = some shape) :
    ∃ width base digits, shape = .constant width base digits ∧
      IsConstant cs width base digits := by
  obtain ⟨width, behind, rfl, allWidth, -, takes, drops⟩ := exists_cut isDecimal cs
  rw [constant?, takes, drops] at h
  split at h
  · next letter digits =>
    split at h
    · next base isBase =>
      split at h
      · next given =>
        simp only [Bool.and_eq_true, Bool.not_eq_true', List.isEmpty_eq_false_iff] at given
        obtain ⟨⟨someWidth, someDigits⟩, all⟩ := given
        cases h
        refine ⟨_, base, digits, rfl, .intro ⟨someWidth, allWidth⟩
          (ofChar?_eq_some_iff.mp isBase) someDigits ?_⟩
        exact fun c hc => isConstantDigit_iff.mp (List.all_eq_true.mp all c hc)
      · cases h
    · cases h
  · cases h

/-- The reader of constants finds a constant exactly in a text that is one. -/
theorem constant?_eq_some_iff :
    constant? cs = some (.constant width base digits) ↔ IsConstant cs width base digits := by
  refine ⟨fun h => ?_, constant?_of_isConstant⟩
  obtain ⟨_, _, _, same, isConstant⟩ := isConstant_of_constant? h
  cases same
  exact isConstant

/-! ## References -/

/-- A name is made of what is neither a bracket nor blank. -/
theorem isNameChar_iff {c : Char} : isNameChar c = true ↔ c ≠ '[' ∧ isBlank c = false := by
  simp [isNameChar]

/-- An index is read up to what follows it, when that is no blank and no digit. -/
theorem index?_append {index : List Char} (isIndex : IsIndex index digits)
    (ends : ∀ c ∈ rest.head?, isBlank c = false ∧ isDecimal c = false) :
    index? (index ++ rest) = some (digits, rest) := by
  cases isIndex with
  | @intro before digits after blank numeral blank' =>
    have digitAhead : ∀ c ∈ (digits ++ (after ++ rest)).head?, isBlank c = false := by
      intro c hc
      obtain ⟨d, others, rfl⟩ := List.exists_cons_of_ne_nil numeral.nonempty
      cases hc
      exact isBlank_eq_false_of_isDecimal (numeral.digits _ List.mem_cons_self)
    have noDigitAhead : ∀ c ∈ (after ++ rest).head?, isDecimal c = false := by
      intro c hc
      cases after with
      | nil => exact (ends c hc).2
      | cons b others =>
        cases hc
        by_contra digit
        have apart := isBlank_eq_false_of_isDecimal (Bool.not_eq_false _ ▸ digit)
        exact absurd (blank' _ List.mem_cons_self) (by rw [apart]; exact Bool.false_ne_true)
    have some : digits.isEmpty = false := by simpa using numeral.nonempty
    simp only [index?, List.append_assoc, dropWhile_append blank digitAhead,
      takeWhile_append numeral.digits noDigitAhead, dropWhile_append numeral.digits noDigitAhead,
      dropWhile_append blank' fun c hc => (ends c hc).1, some]
    rfl

theorem isIndex_of_index? (h : index? cs = some (digits, rest)) :
    ∃ index, cs = index ++ rest ∧ IsIndex index digits := by
  obtain ⟨before, cs, rfl, blank, -, -, drops⟩ := exists_cut isBlank cs
  obtain ⟨digits', cs, rfl, allDigits, -, takesDigits, dropsDigits⟩ := exists_cut isDecimal cs
  obtain ⟨after, cs, rfl, blank', -, -, drops'⟩ := exists_cut isBlank cs
  simp only [index?, drops, takesDigits, dropsDigits, drops'] at h
  split at h
  · cases h
  · next some =>
    cases h
    have numeral : Numeral digits := ⟨by simpa using some, allDigits⟩
    exact ⟨before ++ digits ++ after, by simp only [List.append_assoc], .intro blank numeral blank'⟩

/-- One index in brackets is a range from it to itself. -/
theorem range?_of_isIndex {index : List Char} (isIndex : IsIndex index digits) :
    range? (index ++ [']']) = some (digits, digits) := by
  have ends : ∀ c ∈ [']'].head?, isBlank c = false ∧ isDecimal c = false := by
    rintro c ⟨⟩
    decide
  simp only [range?, index?_append isIndex ends]

/-- Two indices in brackets are a range from the first to the second. -/
theorem range?_of_isIndex_isIndex {high low hi lo : List Char} (isHigh : IsIndex high hi)
    (isLow : IsIndex low lo) : range? (high ++ ':' :: (low ++ [']'])) = some (hi, lo) := by
  have colonEnds : ∀ c ∈ (':' :: (low ++ [']'])).head?,
      isBlank c = false ∧ isDecimal c = false := by
    rintro c ⟨⟩
    decide
  have ends : ∀ c ∈ [']'].head?, isBlank c = false ∧ isDecimal c = false := by
    rintro c ⟨⟩
    decide
  simp only [range?, index?_append isHigh colonEnds, index?_append isLow ends]

/-- A range that is read is one index or two. -/
theorem isIndex_of_range? {hi lo : List Char} (h : range? cs = some (hi, lo)) :
    (∃ index, cs = index ++ [']'] ∧ IsIndex index hi ∧ hi = lo) ∨
      ∃ high low, cs = high ++ ':' :: (low ++ [']']) ∧ IsIndex high hi ∧ IsIndex low lo := by
  unfold range? at h
  split at h
  · next read =>
    cases h
    obtain ⟨index, rfl, isIndex⟩ := isIndex_of_index? read
    exact Or.inl ⟨index, rfl, isIndex, rfl⟩
  · next read =>
    split at h
    · next readLow =>
      cases h
      obtain ⟨high, rfl, isHigh⟩ := isIndex_of_index? read
      obtain ⟨low, rfl, isLow⟩ := isIndex_of_index? readLow
      exact Or.inr ⟨high, low, rfl, isHigh, isLow⟩
    · cases h
  · cases h

/-- A name ends at the first blank or bracket, and blanks end at the bracket. -/
theorem reference?_append {blanks : List Char} (isName : IsName name) (blank : Blanks blanks)
    (ends : rest = [] ∨ ∃ inner, rest = '[' :: inner) :
    reference? (name ++ blanks ++ rest) = match rest with
      | '[' :: inner => (range? inner).map fun range => .reference name (some range)
      | _ => some (.reference name none) := by
  have nameEnds : ∀ c ∈ (blanks ++ rest).head?, isNameChar c = false := by
    intro c hc
    rw [← Bool.not_eq_true, isNameChar_iff]
    rintro ⟨noBracket, noBlank⟩
    cases blanks with
    | nil =>
      rcases ends with rfl | ⟨inner, rfl⟩
      · cases hc
      · cases hc
        exact noBracket rfl
    | cons b others =>
      cases hc
      rw [blank _ List.mem_cons_self] at noBlank
      cases noBlank
  have blanksEnd : ∀ c ∈ rest.head?, isBlank c = false := by
    intro c hc
    rcases ends with rfl | ⟨inner, rfl⟩
    · cases hc
    · cases hc
      decide
  have nameChars : ∀ c ∈ name, isNameChar c = true :=
    fun c hc => isNameChar_iff.mpr (isName.plain c hc)
  have some : name.isEmpty = false := by simpa using isName.nonempty
  simp only [reference?, List.append_assoc, takeWhile_append nameChars nameEnds,
    dropWhile_append nameChars nameEnds, dropWhile_append blank blanksEnd, some]
  rcases ends with rfl | ⟨inner, rfl⟩ <;> rfl

/-- The reader takes as references just the texts that are. -/
theorem reference?_eq_some_iff :
    reference? cs = some (.reference name range) ↔ IsReference cs name range := by
  constructor
  · intro h
    obtain ⟨name', cs, rfl, allName, -, takes, drops⟩ := exists_cut isNameChar cs
    obtain ⟨blanks, cs, rfl, blank, -, -, drops'⟩ := exists_cut isBlank cs
    simp only [reference?, takes, drops, drops'] at h
    split at h
    · cases h
    · next some =>
      have isName : IsName name' :=
        ⟨by simpa using some, fun c hc => isNameChar_iff.mp (allName c hc)⟩
      split at h
      · cases h
        rw [List.append_nil]
        exact .whole isName blank
      · next inner =>
        obtain ⟨⟨hi, lo⟩, read, same⟩ := Option.map_eq_some_iff.mp h
        cases same
        rw [← List.append_assoc]
        rcases isIndex_of_range? read with
          ⟨index, rfl, isIndex, rfl⟩ | ⟨high, low, rfl, isHigh, isLow⟩
        · exact .bit isName blank isIndex
        · exact .range isName blank isHigh isLow
      · cases h
  · intro h
    cases h with
    | whole isName blank =>
      rw [← List.append_nil (_ ++ _), reference?_append isName blank (Or.inl rfl)]
    | bit isName blank isIndex =>
      rw [reference?_append isName blank (Or.inr ⟨_, rfl⟩)]
      simp only [range?_of_isIndex isIndex, Option.map_some]
    | range isName blank isHigh isLow =>
      rw [reference?_append isName blank (Or.inr ⟨_, rfl⟩)]
      simp only [range?_of_isIndex_isIndex isHigh isLow, Option.map_some]

theorem IsReference.isName (isReference : IsReference cs name range) : IsName name := by
  cases isReference <;> assumption

theorem IsReference.exists_append (isReference : IsReference cs name range) :
    ∃ rest, cs = name ++ rest := by
  cases isReference with
  | whole => exact ⟨_, rfl⟩
  | bit => exact ⟨_, List.append_assoc _ _ _⟩
  | range => exact ⟨_, List.append_assoc _ _ _⟩

theorem IsName.last_not_blank (isName : IsName name) :
    ∀ c ∈ name.getLast?, isBlank c = false :=
  fun c hc => (isName.plain c (List.mem_of_getLast? hc)).2

/-- A name alone refers to all of its wire. -/
theorem IsName.isReference (isName : IsName name) : IsReference name name none := by
  have bare := IsReference.whole isName (List.forall_mem_nil _)
  rwa [List.append_nil] at bare

/-- A reference with a range ends in a bracket, so not in a blank. -/
theorem IsReference.last_not_blank {range : List Char × List Char}
    (isReference : IsReference cs name (some range)) :
    ∀ c ∈ cs.getLast?, isBlank c = false := by
  have closed : cs.getLast? = some ']' := by
    cases isReference <;> simp [List.getLast?_cons]
  rw [closed]
  rintro c ⟨⟩
  decide

/-! ## Both shapes -/

/-- A text has the shape of a constant. -/
def HasConstantShape (cs : List Char) : Prop := ∃ width base digits, IsConstant cs width base digits

theorem constant?_eq_none_iff : constant? cs = none ↔ ¬ HasConstantShape cs := by
  constructor
  · rintro none ⟨width, base, digits, isConstant⟩
    rw [constant?_of_isConstant isConstant] at none
    cases none
  · intro other
    cases read : constant? cs with
    | none => rfl
    | some shape =>
      obtain ⟨width, base, digits, -, isConstant⟩ := isConstant_of_constant? read
      exact absurd ⟨width, base, digits, isConstant⟩ other

/-- What begins with a mark is no constant. -/
theorem not_hasConstantShape_of_head? (marked : cs.head? = some '\\' ∨ cs.head? = some '$') :
    ¬ HasConstantShape cs := by
  rintro ⟨width, base, digits, isConstant⟩
  cases isConstant with
  | intro numeral =>
    obtain ⟨first, others, rfl⟩ := List.exists_cons_of_ne_nil numeral.nonempty
    have digit := numeral.digits first List.mem_cons_self
    rcases marked with h | h <;> cases h <;> exact absurd digit (by decide)

/-- The reader of references finds no constants. -/
theorem reference?_ne_constant : reference? cs ≠ some (.constant width base digits) := by
  intro h
  simp only [reference?] at h
  split at h
  · cases h
  · split at h
    · cases h
    · obtain ⟨_, -, same⟩ := Option.map_eq_some_iff.mp h
      cases same
    · cases h

/-- A text is read as a constant exactly when it is one, as constants are tried first. -/
theorem ofChars?_eq_constant_iff :
    ofChars? cs = some (.constant width base digits) ↔ IsConstant cs width base digits := by
  rw [ofChars?]
  split
  · next read => rw [← read, constant?_eq_some_iff]
  · next none =>
    refine ⟨fun h => absurd h reference?_ne_constant, fun isConstant => ?_⟩
    exact absurd ⟨width, base, digits, isConstant⟩ (constant?_eq_none_iff.mp none)

/-- A text refers to a wire only if it is no constant. -/
theorem ofChars?_eq_reference_iff :
    ofChars? cs = some (.reference name range) ↔
      ¬ HasConstantShape cs ∧ IsReference cs name range := by
  rw [ofChars?]
  split
  · next shape read =>
    obtain ⟨width, base, digits, rfl, isConstant⟩ := isConstant_of_constant? read
    exact ⟨(nomatch ·), fun h => absurd ⟨width, base, digits, isConstant⟩ h.1⟩
  · next none =>
    rw [reference?_eq_some_iff]
    exact (and_iff_right (constant?_eq_none_iff.mp none)).symm

/-- A text has a shape. What can be taken for a constant is no reference. -/
inductive HasShape (cs : List Char) : SignalShape → Prop where
  | constant {width : List Char} {base : Base} {digits : List Char}
      (isConstant : IsConstant cs width base digits) : HasShape cs (.constant width base digits)
  | reference {name : List Char} {range : Option (List Char × List Char)}
      (other : ¬ HasConstantShape cs) (isReference : IsReference cs name range) :
      HasShape cs (.reference name range)

/-- The reader finds the shape of every text that has one, and no other. -/
theorem ofChars?_eq_some_iff : ofChars? cs = some shape ↔ HasShape cs shape := by
  constructor
  · intro read
    cases shape with
    | constant width base digits => exact .constant (ofChars?_eq_constant_iff.mp read)
    | reference name range =>
      obtain ⟨other, isReference⟩ := ofChars?_eq_reference_iff.mp read
      exact .reference other isReference
  · intro hasShape
    cases hasShape with
    | constant isConstant => exact ofChars?_eq_constant_iff.mpr isConstant
    | reference other isReference => exact ofChars?_eq_reference_iff.mpr ⟨other, isReference⟩

end SignalShape

end NearestMux
