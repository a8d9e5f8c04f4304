import NearestMux.Proofs.Signal.RoundTrip

/-!
# Which declared wires a signal can name

A document may declare a wire under any text, but the text of a signal gives some characters a
meaning. So a wire can be named just when its name has none of them: no bracket and no blank. Its
marked name is then read as the whole of it. The text that it was declared under is so read, too,
unless it is empty or can be taken for a constant (`Document.declared_wire_named_iff`).

A text that fails these conditions may still be read, as another signal. `mem[0]` is a bit of the
wire `mem`, also where a wire is declared under that name
(`Document.not_declared_wires_named`).
-/

namespace NearestMux

open SignalShape

variable {m : Module} {w : Declaration} {text : String}

namespace Identifier

theorem toList_escape_of_not_isMarked (unmarked : ¬ IsMarked text) :
    (escape text).toList = '\\' :: text.toList := by
  unfold escape
  split
  · next h => exact absurd (Or.inl (by rw [h]; rfl)) unmarked
  · next h => exact absurd (Or.inr (by rw [h]; rfl)) unmarked
  · rw [String.toList_ofList]

/-- A name inside a text is filed like the text only if it is the text: the mark that filing puts in
front is no blank, and stands nowhere in front of the name. -/
theorem eq_of_escape_eq {before name after : List Char} (blank : Text.Blanks before)
    (nonempty : name ≠ []) (within : text.toList = before ++ name ++ after)
    (same : escape (String.ofList name) = escape text) : text.toList = name := by
  have chars := congrArg String.toList same
  by_cases marked : IsMarked (String.ofList name)
  · rw [escape_of_isMarked marked, String.toList_ofList] at chars
    by_cases marked' : IsMarked text
    · rw [chars, escape_of_isMarked marked']
    · rw [toList_escape_of_not_isMarked marked', within] at chars
      have longer := congrArg List.length chars
      simp only [List.length_cons, List.length_append] at longer
      omega
  · rw [toList_escape_of_not_isMarked marked, String.toList_ofList] at chars
    by_cases marked' : IsMarked text
    · rw [escape_of_isMarked marked', within] at chars
      cases before with
      | nil =>
        obtain ⟨first, others, rfl⟩ := List.exists_cons_of_ne_nil nonempty
        obtain ⟨rfl, -⟩ := List.cons.inj chars
        exact absurd (Or.inl (by rw [String.toList_ofList]; rfl)) marked
      | cons first before =>
        obtain ⟨rfl, -⟩ := List.cons.inj chars
        exact absurd (blank _ List.mem_cons_self) (by decide)
    · rw [toList_escape_of_not_isMarked marked'] at chars
      exact (List.cons.inj chars).2.symm

/-- A text that refers, between its blanks, to a name that is filed like the text is that name. -/
theorem eq_of_isReference_trimmed {name : List Char} {range : Option (List Char × List Char)}
    (isReference : IsReference (Text.trimmed Text.isBlank text.toList) name range)
    (same : escape (String.ofList name) = escape text) :
    text.toList = name ∧ Text.trimmed Text.isBlank text.toList = name := by
  obtain ⟨before, after, blank, around⟩ := Text.exists_trimmed Text.isBlank text.toList
  obtain ⟨rest, append⟩ := isReference.exists_append
  have within : text.toList = before ++ name ++ (rest ++ after) := by
    rw [around, append]
    simp only [List.append_assoc]
  have isText := eq_of_escape_eq blank isReference.isName.nonempty within same
  have sizes := congrArg List.length within
  rw [isText] at sizes
  simp only [List.length_append] at sizes
  have noRest : rest = [] := List.eq_nil_of_length_eq_zero (by omega)
  refine ⟨isText, ?_⟩
  rw [append, noRest, List.append_nil]

end Identifier

namespace Signal

theorem wholeWire?_of_constant {wire? : String → Option Wire} {width digits : List Char}
    {base : Base} {s : Signal} (read : ofShape wire? text (.constant width base digits) = .ok s) :
    s.wholeWire? = none := by
  obtain ⟨n, -, read⟩ := bind_eq_ok read
  rw [ofDigits] at read
  split at read
  · split at read
    · next row _ =>
      cases read
      cases row <;> rfl
    · cases read
  · cases read

/-- A part of a wire that is all of one wire is all of that wire. -/
theorem eq_of_ofIndices {v u : Wire} {range : Option (List Char × List Char)} {s : Signal}
    (read : ofIndices v range = .ok s) (whole : s.wholeWire? = some u) : u = v := by
  have slice : ∀ offset width (inside : offset + width ≤ v.width),
      Chunk.Over {v} (ofChunks [.slice v offset width inside]).chunks := by
    intro offset width inside
    have stocked : Chunk.Over {v} [.slice v offset width inside] := by
      intro c hc u hu
      rw [List.mem_singleton.mp hc] at hu
      cases hu
      rfl
    exact stocked.merged
  have cut : Chunk.Over {v} s.chunks := by
    cases range with
    | none =>
      cases read
      exact slice _ _ _
    | some range =>
      obtain ⟨hi, -, read⟩ := bind_eq_ok read
      obtain ⟨lo, -, read⟩ := bind_eq_ok read
      rw [ofRange] at read
      split at read
      · cases read
        exact slice _ _ _
      · cases read
  rw [(wholeWire?_eq_some_iff s u).mp whole] at cut
  exact cut _ List.mem_cons_self u rfl

end Signal

namespace Document

/-- A text that is read as the whole of the wire it is filed like is the name of that wire, with
nothing around it. -/
theorem isName_of_whole {s : Signal} (named : w.name = Identifier.escape text)
    (read : signal m (.text text) = .ok s) (whole : s.wholeWire? = some w.toWire) :
    IsName text.toList ∧ ¬ HasConstantShape text.toList := by
  have answer := ofValue_of_signal read
  rw [Signal.ofValue, Signal.ofText] at answer
  cases readShape : ofChars? (Text.trimmed Text.isBlank text.toList) with
  | none =>
    simp only [readShape] at answer
    cases answer
  | some shape =>
    simp only [readShape] at answer
    cases ofChars?_eq_some_iff.mp readShape with
    | constant isConstant =>
      rw [Signal.wholeWire?_of_constant answer] at whole
      cases whole
    | @reference name range other isReference =>
      rw [Signal.ofShape] at answer
      split at answer
      · next v found =>
        obtain ⟨d, isDeclared, rfl⟩ := Option.map_eq_some_iff.mp found
        have same : w.toWire = d.toWire := Signal.eq_of_ofIndices answer whole
        have alike : Identifier.escape (String.ofList name) = Identifier.escape text :=
          calc Identifier.escape (String.ofList name)
            _ = d.name := (Module.wire?_eq_some_iff.mp isDeclared).2.symm
            _ = w.name := congrArg Wire.name same.symm
            _ = Identifier.escape text := named
        obtain ⟨isText, bare⟩ := Identifier.eq_of_isReference_trimmed isReference alike
        rw [bare] at other
        rw [isText]
        exact ⟨isReference.isName, other⟩
      · cases answer

theorem exists_whole_iff (declared : w ∈ m.wires.toList) (named : w.name = Identifier.escape text)
    (positive : 0 < w.width) :
    (∃ s, signal m (.text text) = .ok s ∧ s.wholeWire? = some w.toWire) ↔
      IsName text.toList ∧ ¬ HasConstantShape text.toList := by
  constructor
  · rintro ⟨s, read, whole⟩
    exact isName_of_whole named read whole
  · rintro ⟨isName, other⟩
    have first : ∀ c ∈ text.toList.head?, Text.isBlank c = false :=
      fun c hc => (isName.plain c (List.mem_of_head? hc)).2
    have hasShape : HasShape (Text.trimmed Text.isBlank text.toList)
        (.reference text.toList none) := by
      rw [Text.trimmed_eq_self first isName.last_not_blank]
      exact .reference other isName.isReference
    have filed : w.name = Identifier.escape (String.ofList text.toList) := by
      rw [String.ofList_toList, named]
    have answer : Signal.ofText m.named? text = .ok (Signal.ofWire w.toWire) :=
      Signal.ofText_of_reference hasShape declared filed
    refine ⟨Signal.ofWire w.toWire, signal_of_ok answer, ?_⟩
    rw [Signal.wholeWire?_eq_some_iff]
    exact Signal.chunks_ofWire positive

theorem isName_escape_iff : IsName (Identifier.escape text).toList ↔
    ∀ c ∈ text.toList, c ≠ '[' ∧ Text.isBlank c = false := by
  by_cases marked : Identifier.IsMarked text
  · rw [Identifier.escape_of_isMarked marked]
    exact ⟨IsName.plain, fun plain => ⟨Identifier.ne_nil_of_isMarked marked, plain⟩⟩
  · rw [Identifier.toList_escape_of_not_isMarked marked]
    constructor
    · intro isName
      exact (List.forall_mem_cons.mp isName.plain).2
    · intro plain
      exact ⟨List.cons_ne_nil _ _, List.forall_mem_cons.mpr ⟨by decide, plain⟩⟩

variable {v asked : Value} {d : Design} {module wire : String}

/-- **Naming.** Every wire that an accepted document declares is found in its module. If it has
bits, its marked name is read as the whole of it just when the name has no bracket and no blank; and
the text that it was declared under just when that text is a name and no constant. -/
theorem declared_wire_named_iff (accepted : design v asked = .ok d)
    (declares : Declares v module wire) :
    ∃ m w, d.module? (Identifier.escape module) = some m ∧
      m.wire? (Identifier.escape wire) = some w ∧
      (0 < w.width →
        ((∃ s, signal m (.text (Identifier.escape wire)) = .ok s ∧ s.wholeWire? = some w.toWire) ↔
          ∀ c ∈ wire.toList, c ≠ '[' ∧ Text.isBlank c = false) ∧
        ((∃ s, signal m (.text wire) = .ok s ∧ s.wholeWire? = some w.toWire) ↔
          IsName wire.toList ∧ ¬ HasConstantShape wire.toList)) := by
  obtain ⟨m, w, isModule, isWire⟩ := wire?_of_declares accepted declares
  obtain ⟨declared, named⟩ := Module.wire?_eq_some_iff.mp isWire
  refine ⟨m, w, isModule, isWire, fun positive => ⟨?_, exists_whole_iff declared named positive⟩⟩
  have named' : w.name = Identifier.escape (Identifier.escape wire) := by
    rw [Identifier.escape_escape, named]
  have other : ¬ HasConstantShape (Identifier.escape wire).toList :=
    not_hasConstantShape_of_head? (Identifier.isMarked_escape wire)
  rw [exists_whole_iff declared named' positive, and_iff_left other, isName_escape_iff]

/-- A document with a memory of four bits and a wire that is called like its first bit. -/
def bracketDocument : Value :=
  .map [(.text "modules", .map [(.text "top", .map [(.text "wires", .map [
    (.text "mem", .map [(.text "width", .int 4)]), (.text "mem[0]", .map [])])])])]

theorem declares_mem : Declares bracketDocument "top" "mem" :=
  show Declares _ (Value.text "top").name (Value.text "mem").name from
    .intro rfl List.mem_cons_self rfl rfl List.mem_cons_self

theorem declares_bracket : Declares bracketDocument "top" "mem[0]" :=
  show Declares _ (Value.text "top").name (Value.text "mem[0]").name from
    .intro rfl List.mem_cons_self rfl rfl (List.mem_cons_of_mem _ List.mem_cons_self)

theorem declared_wire_named_iff_mem : ∃ d m w, design bracketDocument .null = .ok d ∧
    Declares bracketDocument "top" "mem" ∧ d.module? "\\top" = some m ∧
    m.wire? "\\mem" = some w ∧ 0 < w.width ∧
    (∃ s, signal m (.text "\\mem") = .ok s ∧ s.wholeWire? = some w.toWire) ∧
    ∃ s, signal m (.text "mem") = .ok s ∧ s.wholeWire? = some w.toWire := by
  have accepted : design bracketDocument .null = .ok _ := rfl
  have isName : IsName "mem".toList := ⟨by decide, List.all_iff_forall_prop.mp (by decide)⟩
  have other : ¬ HasConstantShape "mem".toList := constant?_eq_none_iff.mp (by decide)
  obtain ⟨m, w, isModule, isWire, named⟩ := declared_wire_named_iff accepted declares_mem
  cases Option.some.inj isModule
  cases Option.some.inj isWire
  obtain ⟨marked, plain⟩ := named (by decide)
  exact ⟨_, _, _, accepted, declares_mem, rfl, rfl, by decide, marked.mpr isName.plain,
    plain.mpr ⟨isName, other⟩⟩

/-- A wire cannot be named when its name is read as a bit of another one. -/
theorem not_declared_wires_named : ∃ d m w, design bracketDocument .null = .ok d ∧
    Declares bracketDocument "top" "mem[0]" ∧ d.module? "\\top" = some m ∧
    m.wire? "\\mem[0]" = some w ∧ 0 < w.width ∧
    (∃ s, signal m (.text "mem[0]") = .ok s ∧ s.bits = [.ofWire "\\mem" 0]) ∧
    ¬ (∃ s, signal m (.text "mem[0]") = .ok s ∧ s.wholeWire? = some w.toWire) ∧
    ¬ (∃ s, signal m (.text "\\mem[0]") = .ok s ∧ s.wholeWire? = some w.toWire) := by
  refine ⟨_, _, _, rfl, declares_bracket, rfl, rfl, by decide, ⟨_, rfl, by decide⟩, ?_, ?_⟩
  · rintro ⟨s, read, whole⟩
    have isName := (isName_of_whole rfl read whole).1
    exact (isName.plain '[' (by decide)).1 rfl
  · rintro ⟨s, read, whole⟩
    have isName := (isName_of_whole rfl read whole).1
    exact (isName.plain '[' (by decide)).1 rfl

end Document

end NearestMux
