import Mathlib.Data.Int.Bitwise
import NearestMux.Proofs.Netlist.Filing
import NearestMux.Proofs.Signal.Constant
import NearestMux.Proofs.Signal.NormalForm

/-!
# What a signal of a document means

`Signal.Reader` reads a signal from a value. Here the same is said without reading: which values are
signals, and of which bits (`Denotes`). A truth value is one bit, an integer its thirty-two low bits
in two's complement, a text a constant or some of the bits of a declared wire, a list the bits of
its parts from the last to the first. Nothing else denotes anything.

A meaning knows no limits, and the reader does (`Value.WithinLimits`): it reads no number of more
than so many digits, zeros in front counted, and fills no row of bits up beyond a width.
`Document.signal_denotes` is the agreement. The reader gives the bits that are denoted, of just the
values within the limits; where none are denoted it names the module and what is wrong with the
signal, if it can. What it does in place of either is no fault of the document, and comes of nothing
but a limit (`Document.not_signal_of_denotes`).

Which of the limits is crossed first is not said here: parts are read from the last to the first,
and the first fault ends the reading.
-/

namespace NearestMux

open SignalShape

variable {m : Module} {cs : List Char} {shape : SignalShape}

/-! ## Meanings -/

namespace SignalShape

/-- The bits that a shape stands for in a module. -/
inductive Means (m : Module) : SignalShape → List Bit → Prop where
  | constant {width : List Char} {base : Base} {digits : List Char}
      (accepts : base.Accepts digits) :
      Means m (.constant width base digits)
        ((List.range (Text.decimalNumber width)).map fun k => .const (base.bitAt digits k))
  | whole {name : List Char} {d : Declaration} (declared : d ∈ m.wires.toList)
      (named : d.name = Identifier.escape (String.ofList name)) :
      Means m (.reference name none) d.toWire.bits
  | part {name hi lo : List Char} {d : Declaration} (declared : d ∈ m.wires.toList)
      (named : d.name = Identifier.escape (String.ofList name))
      (ordered : Text.decimalNumber lo ≤ Text.decimalNumber hi)
      (inside : Text.decimalNumber hi < d.width) :
      Means m (.reference name (some (hi, lo)))
        ((List.range' (Text.decimalNumber lo)
          (Text.decimalNumber hi - Text.decimalNumber lo + 1)).map (Bit.ofWire d.name))

end SignalShape

/-- The bits that a value stands for in a module, the least significant first. -/
inductive Denotes (m : Module) : Value → List Bit → Prop where
  | bool (b : Bool) : Denotes m (.bool b) [.const (bitChar b)]
  | int (i : Int) : Denotes m (.int i) ((List.range 32).map fun k => .const (bitChar (i.testBit k)))
  | text {text : String} {shape : SignalShape} {row : List Bit}
      (hasShape : HasShape (Text.trimmed Text.isBlank text.toList) shape)
      (means : shape.Means m row) : Denotes m (.text text) row
  | list {parts : List Value} {rows : List (List Bit)}
      (each : List.Forall₂ (Denotes m) parts rows) : Denotes m (.list parts) rows.reverse.flatten

/-! ## Limits -/

/-- The numbers that a shape writes have few enough digits to be read, and a constant need not be
filled up beyond what a row can have. -/
def SignalShape.WithinLimits : SignalShape → Prop
  | .constant width base digits =>
    Text.isShort width = true ∧ base.HasFewDigits digits ∧
      (Text.decimalNumber width < rowLimit ∨ Text.decimalNumber width ≤ base.spelled digits)
  | .reference _ none => True
  | .reference _ (some (hi, lo)) => Text.isShort hi = true ∧ Text.isShort lo = true

mutual

/-- Every text in a value has a shape within the limits, if it has one. Integers are not written out
to be read as signals, and so have no limit; a value that is no signal is shown by its fault. -/
def Value.WithinLimits : Value → Prop
  | .text s => ∀ shape, HasShape (Text.trimmed Text.isBlank s.toList) shape → shape.WithinLimits
  | .list parts => Value.AllWithinLimits parts
  | .int _ => True
  | v => v.isWritable = true

/-- Every part of a list is within the limits. -/
def Value.AllWithinLimits : List Value → Prop
  | [] => True
  | part :: rest => part.WithinLimits ∧ Value.AllWithinLimits rest

end

theorem Value.withinLimits_of_ofChars? {s : String} {shape : SignalShape}
    (read : ofChars? (Text.trimmed Text.isBlank s.toList) = some shape)
    (within : shape.WithinLimits) : (Value.text s).WithinLimits := by
  intro other hasShape
  rw [ofChars?_eq_some_iff.mpr hasShape] at read
  cases read
  exact within

/-- The widths of a module's wires have few enough digits to be written. -/
def Module.WidthsWritable (m : Module) : Prop :=
  ∀ d ∈ m.wires.toList, Text.isWritable d.width = true

/-- A fault comes of a limit: of a number that is not read, or of a row that is not filled up. -/
def SignalFault.IsLimit : SignalFault → Prop
  | .tooManyDigits _ => True
  | .tooWide _ => True
  | _ => False

/-! ## Texts -/

/-- The wire that a signal of a module finds under a name. -/
def Module.named? (m : Module) (name : String) : Option Wire := (m.wire? name).map (·.toWire)

/-- An answer agrees with a meaning, for a value that is within the limits or not and in a module
whose widths can be written or not. It gives the one row of bits that is meant, within the limits;
or a fault, of a value that means nothing or is beyond them. Within them the fault comes of no
limit, and can be told. -/
inductive Settles (means : List Bit → Prop) (within legible : Prop) :
    Except SignalFault (List Bit) → Prop where
  | ok {row : List Bit} (inside : within) (only : ∀ other, means other ↔ other = row) :
      Settles means within legible (.ok row)
  | error {fault : SignalFault} (unmeant : within → ∀ row, ¬ means row)
      (told : within → ¬ fault.IsLimit ∧ (legible → fault.isTellable = true)) :
      Settles means within legible (.error fault)

namespace Settles

variable {means means' : List Bit → Prop} {within legible : Prop} {row : List Bit}
  {fault : SignalFault} {answer : Except SignalFault (List Bit)}

theorem one (inside : within) (meant : means row) (only : ∀ other, means other → other = row) :
    Settles means within legible (.ok row) :=
  .ok inside fun other => ⟨only other, fun same => same ▸ meant⟩

/-- Beyond the limits any fault will do. -/
theorem beyond (crossed : ¬ within) : Settles means within legible (.error fault) :=
  .error (fun inside => absurd inside crossed) fun inside => absurd inside crossed

theorem congr (same : ∀ row, means row ↔ means' row)
    (settles : Settles means' within legible answer) : Settles means within legible answer := by
  cases settles with
  | ok inside only => exact .ok inside fun other => (same other).trans (only other)
  | error unmeant told =>
    exact .error (fun inside row meant => unmeant inside row ((same row).mp meant)) told

/-- Two answers side by side agree with the two meanings side by side. -/
theorem append {meansLow meansHigh : List Bit → Prop} {withinLow withinHigh : Prop}
    {low high : Except SignalFault (List Bit)} (settlesLow : Settles meansLow withinLow legible low)
    (settlesHigh : Settles meansHigh withinHigh legible high) :
    Settles (fun row => ∃ l h, meansLow l ∧ meansHigh h ∧ l ++ h = row) (withinHigh ∧ withinLow)
      legible (low.bind fun l => high.map (l ++ ·)) := by
  cases settlesLow with
  | error unmeant told =>
    exact .error (fun inside row ⟨l, _, meant, _⟩ => unmeant inside.2 l meant)
      fun inside => told inside.2
  | ok insideLow onlyLow =>
    cases settlesHigh with
    | error unmeant told =>
      exact .error (fun inside row ⟨_, h, _, meant, _⟩ => unmeant inside.1 h meant)
        fun inside => told inside.1
    | ok insideHigh onlyHigh =>
      refine .one ⟨insideHigh, insideLow⟩ ⟨_, _, (onlyLow _).mpr rfl, (onlyHigh _).mpr rfl, rfl⟩ ?_
      rintro row ⟨l, h, meantLow, meantHigh, rfl⟩
      rw [(onlyLow l).mp meantLow, (onlyHigh h).mp meantHigh]

end Settles

namespace Signal

theorem bits_const (values : List Char) : (ofChunks [.const values]).bits = values.map .const := by
  rw [bits_ofChunks, List.flatMap_singleton]
  rfl

theorem bits_slice {w : Wire} {offset width : Nat} (inside : offset + width ≤ w.width) :
    (ofChunks [.slice w offset width inside]).bits =
      (List.range' offset width).map (Bit.ofWire w.name) := by
  rw [bits_ofChunks, List.flatMap_singleton]
  rfl

theorem number_of_isShort {digits : List Char} (short : Text.isShort digits = true) :
    number digits = .ok (Text.decimalNumber digits) := if_pos short

theorem number_of_not_isShort {digits : List Char} (long : ¬ Text.isShort digits = true) :
    number digits = .error (.tooManyDigits digits.length) := if_neg long

/-- What is cut from a wire by its indices are the bits between them, when both are read and lie in
the wire in this order. -/
theorem settles_ofIndices {name : List Char} {range : Option (List Char × List Char)}
    {d : Declaration} (found : m.wire? (Identifier.escape (String.ofList name)) = some d) :
    Settles (Means m (.reference name range)) (WithinLimits (.reference name range))
      m.WidthsWritable ((ofIndices d.toWire range).map bits) := by
  obtain ⟨declared, named⟩ := Module.wire?_eq_some_iff.mp found
  rcases range with _ | ⟨hi, lo⟩
  · have row : (ofWire d.toWire).bits = d.toWire.bits := bits_ofWire d.toWire
    refine .one trivial (row ▸ .whole declared named) fun other means => ?_
    cases means with
    | whole declared' named' => rw [Module.eq_of_wire? found declared' named', row]
  · by_cases hiShort : Text.isShort hi = true
    · by_cases loShort : Text.isShort lo = true
      · simp only [ofIndices, number_of_isShort hiShort, number_of_isShort loShort]
        show Settles _ _ _ ((ofRange d.toWire (Text.decimalNumber hi) (Text.decimalNumber lo)).map
          bits)
        unfold ofRange
        split
        · next inside =>
          have fits : Text.decimalNumber lo + (Text.decimalNumber hi - Text.decimalNumber lo + 1) ≤
              d.width := by
            omega
          have row := bits_slice (w := d.toWire) fits
          refine .one ⟨hiShort, loShort⟩ (row ▸ .part declared named inside.1 inside.2)
            fun other means => ?_
          cases means with
          | part declared' named' => rw [Module.eq_of_wire? found declared' named', row]
        · next outside =>
          refine .error (fun _ row means => ?_) fun _ => ⟨not_false, fun legible => ?_⟩
          · cases means with
            | part declared' named' ordered' inside' =>
              rw [Module.eq_of_wire? found declared' named'] at inside'
              exact outside ⟨ordered', inside'⟩
          · rw [SignalFault.isTellable, Text.isWritable_decimalNumber hiShort,
              Text.isWritable_decimalNumber loShort, legible d declared]
            rfl
      · simp only [ofIndices, number_of_isShort hiShort, number_of_not_isShort loShort]
        exact .beyond fun within => loShort within.2
    · simp only [ofIndices, number_of_not_isShort hiShort]
      exact .beyond fun within => hiShort within.1

/-- A constant is the row of its bits, when its numbers are read, its digits mean something in the
base, and it need not be filled up too far. -/
theorem settles_constant {wire? : String → Option Wire} {width digits : List Char} {base : Base}
    (text : String) (isConstant : IsConstant cs width base digits) :
    Settles (Means m (.constant width base digits)) (WithinLimits (.constant width base digits))
      m.WidthsWritable ((ofShape wire? text (.constant width base digits)).map bits) := by
  by_cases short : Text.isShort width = true
  · rw [ofShape, number_of_isShort short]
    show Settles _ _ _ ((ofDigits text (Text.decimalNumber width) base digits).map bits)
    unfold ofDigits
    have reads : base.Reads digits (base.bits digits) := Base.reads_bits isConstant.allDigits
    generalize base.bits digits = answer at reads
    cases reads with
    | @ok spelled accepts few length row =>
      dsimp only
      rw [fittedBits?_eq, length]
      by_cases fits : Text.decimalNumber width < rowLimit ∨
          Text.decimalNumber width ≤ base.spelled digits
      · have bitsOf : (ofChunks [.const (fittedBits (Text.decimalNumber width) spelled)]).bits =
            (List.range (Text.decimalNumber width)).map fun k => .const (base.bitAt digits k) := by
          rw [bits_const, row, List.map_map]
          rfl
        rw [if_pos fits]
        refine .one ⟨short, few, fits⟩ (bitsOf ▸ .constant accepts) fun other means => ?_
        cases means
        exact bitsOf.symm
      · rw [if_neg fits]
        exact .beyond fun within => fits within.2.2
    | tooMany accepts many => exact .beyond fun within => many within.2.1
    | @malformed fault refused other =>
      refine .error (fun _ row means => ?_) fun _ => ?_
      · cases means with
        | constant accepts => exact refused accepts
      · cases fault with
        | tooManyDigits count => exact absurd rfl (other count)
        | notDecimal => exact ⟨nofun, fun _ => rfl⟩
        | notBits => exact ⟨nofun, fun _ => rfl⟩
  · rw [ofShape, number_of_not_isShort short]
    exact .beyond fun within => short within.1

theorem settles_ofShape (text : String) (hasShape : HasShape cs shape) :
    Settles (shape.Means m) shape.WithinLimits m.WidthsWritable
      ((ofShape m.named? text shape).map bits) := by
  cases hasShape with
  | constant isConstant => exact settles_constant text isConstant
  | @reference name range other isReference =>
    simp only [ofShape, Module.named?]
    cases found : m.wire? (Identifier.escape (String.ofList name)) with
    | none =>
      have missing : ∀ d ∈ m.wires.toList, d.name ≠ Identifier.escape (String.ofList name) := by
        intro d declared named
        rw [Module.wire?_eq_some_iff.mpr ⟨declared, named⟩] at found
        cases found
      refine .error (fun _ row means => ?_) fun _ => ⟨nofun, fun _ => rfl⟩
      cases means with
      | whole declared named => exact missing _ declared named
      | part declared named => exact missing _ declared named
    | some d => exact settles_ofIndices found

theorem ofText_of_isConstant {text : String} {width digits : List Char} {base : Base}
    (isConstant : IsConstant (Text.trimmed Text.isBlank text.toList) width base digits) :
    ofText m.named? text = number width >>= fun n =>
      ofDigits (String.ofList (Text.trimmed Text.isBlank text.toList)) n base digits := by
  simp only [ofText, ofChars?_eq_constant_iff.mpr isConstant, ofShape]

theorem settles_ofText (text : String) :
    Settles (Denotes m (.text text)) (Value.text text).WithinLimits m.WidthsWritable
      ((ofText m.named? text).map bits) := by
  rw [ofText]
  cases read : ofChars? (Text.trimmed Text.isBlank text.toList) with
  | none =>
    refine .error (fun _ row denotes => ?_) fun _ => ⟨nofun, fun _ => rfl⟩
    cases denotes with
    | text hasShape means =>
      rw [ofChars?_eq_some_iff.mpr hasShape] at read
      cases read
  | some shape =>
    have hasShape := ofChars?_eq_some_iff.mp read
    have only : ∀ other, HasShape (Text.trimmed Text.isBlank text.toList) other →
        other = shape := by
      intro other hasOther
      rw [ofChars?_eq_some_iff.mpr hasOther] at read
      exact Option.some.inj read
    have within : (Value.text text).WithinLimits = shape.WithinLimits := propext
      ⟨fun within => within shape hasShape,
        fun within other hasOther => only other hasOther ▸ within⟩
    rw [within]
    refine Settles.congr (fun row => ⟨fun denotes => ?_, .text hasShape⟩)
      (settles_ofShape _ hasShape)
    cases denotes with
    | text hasShape' means => exact only _ hasShape' ▸ means

/-- A bit of an integer is the parity of what is left when the bits below it are shifted out. -/
theorem shiftRight_emod_two_iff (i : Int) (k : Nat) : (i >>> k) % 2 = 1 ↔ i.testBit k = true := by
  cases i with
  | ofNat n =>
    show ((n >>> k : Nat) : Int) % 2 = 1 ↔ n.testBit k = true
    rw [Nat.testBit_eq_decide_div_mod_eq, decide_eq_true_iff, Nat.shiftRight_eq_div_pow]
    omega
  | negSucc n =>
    show Int.negSucc (n >>> k) % 2 = 1 ↔ (!n.testBit k) = true
    rw [Nat.testBit_eq_decide_div_mod_eq, Bool.not_eq_true', decide_eq_false_iff_not,
      Nat.shiftRight_eq_div_pow]
    omega

theorem ofInt_eq (i : Int) (width : Nat) :
    ofInt i width = ofChunks [.const ((List.range width).map fun k => bitChar (i.testBit k))] := by
  rw [ofInt, Int.toNat_natCast]
  simp only [shiftRight_emod_two_iff, bitChar]

/-- The low bits of an integer are those of its two's complement. -/
theorem bits_ofInt (i : Int) (width : Nat) :
    (ofInt i width).bits = (List.range width).map fun k => .const (bitChar (i.testBit k)) := by
  rw [ofInt_eq, bits_const, List.map_map]
  rfl

mutual

theorem settles_ofValue (v : Value) :
    Settles (Denotes m v) v.WithinLimits m.WidthsWritable ((ofValue m.named? v).map bits) := by
  cases v with
  | bool b =>
    have row : (ofInt (if b then 1 else 0) 1).bits = [.const (bitChar b)] := by
      cases b <;> rfl
    refine .one rfl (row ▸ .bool b) fun other denotes => ?_
    cases denotes
    exact row.symm
  | int i =>
    have row := bits_ofInt i 32
    refine .one trivial (row ▸ .int i) fun other denotes => ?_
    cases denotes
    exact row.symm
  | text text => exact settles_ofText text
  | list parts =>
    have settles := settles_chunksOfParts parts
    rw [ofValue]
    have denotes_iff : ∀ row, Denotes m (.list parts) row ↔
        ∃ rows, List.Forall₂ (Denotes m) parts rows ∧ rows.reverse.flatten = row := by
      refine fun row => ⟨fun denotes => ?_, ?_⟩
      · cases denotes with
        | list each => exact ⟨_, each, rfl⟩
      · rintro ⟨rows, each, rfl⟩
        exact .list each
    cases read : chunksOfParts m.named? parts with
    | ok chunks =>
      rw [read] at settles
      show Settles _ _ _ (.ok (ofChunks chunks).bits)
      rw [bits_ofChunks]
      exact settles.congr denotes_iff
    | error fault =>
      rw [read] at settles
      exact settles.congr denotes_iff
  | null | float | moment | bytes | set | pair | map =>
    exact .error (fun _ row denotes => nomatch denotes) fun within => ⟨nofun, fun _ => within⟩

theorem settles_chunksOfParts (parts : List Value) :
    Settles (fun row => ∃ rows, List.Forall₂ (Denotes m) parts rows ∧ rows.reverse.flatten = row)
      (Value.AllWithinLimits parts) m.WidthsWritable
      ((chunksOfParts m.named? parts).map (List.flatMap Chunk.bits)) := by
  cases parts with
  | nil =>
    refine .one trivial ⟨[], .nil, rfl⟩ ?_
    rintro row ⟨rows, each, rfl⟩
    cases each
    rfl
  | cons part rest =>
    have settles := (settles_chunksOfParts rest).append (settles_ofValue part)
    have answer : (chunksOfParts m.named? (part :: rest)).map (List.flatMap Chunk.bits) =
        ((chunksOfParts m.named? rest).map (List.flatMap Chunk.bits)).bind fun low =>
          ((ofValue m.named? part).map bits).map (low ++ ·) := by
      rw [chunksOfParts]
      cases chunksOfParts m.named? rest with
      | error fault => rfl
      | ok low =>
        cases ofValue m.named? part with
        | error fault => rfl
        | ok high => exact congrArg Except.ok List.flatMap_append
    rw [answer]
    refine settles.congr fun row => ⟨?_, ?_⟩
    · rintro ⟨rows, each, rfl⟩
      cases each with
      | @cons _ high _ rows first others =>
        refine ⟨rows.reverse.flatten, high, ⟨rows, others, rfl⟩, first, ?_⟩
        rw [List.reverse_cons, List.flatten_concat]
    · rintro ⟨_, high, ⟨rows, others, rfl⟩, first, rfl⟩
      refine ⟨high :: rows, .cons first others, ?_⟩
      rw [List.reverse_cons, List.flatten_concat]

end

end Signal

/-! ## Documents -/

namespace Document

variable {v : Value} {s : Signal} {fault : SignalFault}

theorem signal_of_ok (read : Signal.ofValue m.named? v = .ok s) : signal m v = .ok s := by
  unfold Module.named? at read
  rw [signal, read]

theorem ofValue_of_signal (read : signal m v = .ok s) :
    Signal.ofValue m.named? v = .ok s := by
  unfold signal at read
  split at read
  · next answer =>
    cases read
    exact answer
  · cases read
  · cases read
  · exact absurd read failIn_ne_ok

/-- A fault of a signal that comes of no limit is told as one of the document, if it can be. -/
theorem signal_of_not_isLimit (read : Signal.ofValue m.named? v = .error fault)
    (plain : ¬ fault.IsLimit) : signal m v = failIn m (.signal fault) := by
  unfold Module.named? at read
  rw [signal, read]
  cases fault with
  | tooManyDigits count => exact (plain trivial).elim
  | tooWide width => exact (plain trivial).elim
  | _ => rfl

theorem signal_of_tooManyDigits {count : Nat}
    (read : Signal.ofValue m.named? v = .error (.tooManyDigits count)) :
    signal m v = .error (.kind .numberTooLong) := by
  unfold Module.named? at read
  rw [signal, read]

theorem signal_of_tooWide {width : Nat}
    (read : Signal.ofValue m.named? v = .error (.tooWide width)) :
    signal m v = .error (.kind (.constantTooWide width)) := by
  unfold Module.named? at read
  rw [signal, read]

section Constants

variable {text : String} {width digits spelled : List Char} {base : Base}

/-- A width of too many digits is not read, whatever it is the width of. -/
theorem signal_of_not_isShort
    (isConstant : IsConstant (Text.trimmed Text.isBlank text.toList) width base digits)
    (long : ¬ Text.isShort width = true) :
    signal m (.text text) = .error (.kind .numberTooLong) := by
  have answer : Signal.ofValue m.named? (.text text) = .error (.tooManyDigits width.length) := by
    rw [Signal.ofValue, Signal.ofText_of_isConstant isConstant, Signal.number_of_not_isShort long]
    rfl
  exact signal_of_tooManyDigits answer

/-- A constant whose digits give bits is the row of these, fitted to the width. -/
theorem signal_of_bits
    (isConstant : IsConstant (Text.trimmed Text.isBlank text.toList) width base digits)
    (short : Text.isShort width = true) (read : base.bits digits = .ok spelled) :
    signal m (.text text) =
      match fittedBits? (Text.decimalNumber width) spelled with
      | some row => .ok (.ofChunks [.const row])
      | none => .error (.kind (.constantTooWide (Text.decimalNumber width))) := by
  have answer : Signal.ofValue m.named? (.text text) =
      Signal.ofDigits (String.ofList (Text.trimmed Text.isBlank text.toList))
        (Text.decimalNumber width) base digits := by
    rw [Signal.ofValue, Signal.ofText_of_isConstant isConstant, Signal.number_of_isShort short]
    rfl
  rw [Signal.ofDigits, read] at answer
  cases filled : fittedBits? (Text.decimalNumber width) spelled with
  | some row =>
    simp only [filled] at answer
    exact signal_of_ok answer
  | none =>
    simp only [filled] at answer
    exact signal_of_tooWide answer

/-- A constant whose digits mean something is the row of its bits, unless one of the limits is
crossed. -/
theorem signal_of_accepts
    (isConstant : IsConstant (Text.trimmed Text.isBlank text.toList) width base digits)
    (accepts : base.Accepts digits) :
    signal m (.text text) =
      if Text.isShort width = true ∧ base.HasFewDigits digits then
        if Text.decimalNumber width < rowLimit ∨ Text.decimalNumber width ≤ base.spelled digits then
          .ok (.ofChunks [.const ((List.range (Text.decimalNumber width)).map (base.bitAt digits))])
        else .error (.kind (.constantTooWide (Text.decimalNumber width)))
      else .error (.kind .numberTooLong) := by
  by_cases short : Text.isShort width = true
  · have reads : base.Reads digits (base.bits digits) := Base.reads_bits isConstant.allDigits
    cases read : base.bits digits with
    | ok spelled =>
      rw [read] at reads
      cases reads with
      | ok _ few length row =>
        rw [signal_of_bits isConstant short read, if_pos ⟨short, few⟩, fittedBits?_eq, length, row]
        by_cases fits : Text.decimalNumber width < rowLimit ∨
            Text.decimalNumber width ≤ base.spelled digits
        · rw [if_pos fits, if_pos fits]
        · rw [if_neg fits, if_neg fits]
    | error fault =>
      rw [read] at reads
      cases reads with
      | malformed refused => exact absurd accepts refused
      | @tooMany count _ many =>
        have answer : Signal.ofValue m.named? (.text text) = .error (.tooManyDigits count) := by
          rw [Signal.ofValue, Signal.ofText_of_isConstant isConstant,
            Signal.number_of_isShort short]
          show Signal.ofDigits _ (Text.decimalNumber width) base digits = _
          rw [Signal.ofDigits, read]
          rfl
        rw [if_neg fun within => many within.2, signal_of_tooManyDigits answer]
  · rw [if_neg fun within => short within.1, signal_of_not_isShort isConstant short]

end Constants

/-- What a fault of a signal comes to in a document: a fault of the format, unless a limit is
crossed or a width of the module cannot be written. -/
theorem signal_of_settles (read : Signal.ofValue m.named? v = .error fault)
    (told : v.WithinLimits → ¬ fault.IsLimit ∧ (m.WidthsWritable → fault.isTellable = true)) :
    signal m v = .error (.format (.inModule m.name (.signal fault))) ∨
    signal m v = .error (.kind .numberTooLong) ∧ ¬ (v.WithinLimits ∧ m.WidthsWritable) ∨
    ∃ width, signal m v = .error (.kind (.constantTooWide width)) ∧ ¬ v.WithinLimits := by
  cases fault with
  | tooManyDigits count =>
    exact .inr (.inl ⟨signal_of_tooManyDigits read, fun inside => (told inside.1).1 trivial⟩)
  | tooWide width =>
    exact .inr (.inr ⟨width, signal_of_tooWide read, fun inside => (told inside).1 trivial⟩)
  | unreadable | unknownWire | outOfBounds | notDecimal | notBits =>
    rw [signal_of_not_isLimit read nofun, failIn]
    split
    · exact .inl rfl
    · next untold => exact .inr (.inl ⟨rfl, fun inside => untold ((told inside.1).2 inside.2)⟩)

/-- **Meaning.** A value is read as a signal just when it denotes bits and is within the limits, and
these are the bits of the signal. A value within the limits that denotes none is a fault of the
document, told with the module, as long as the widths of the module can be written. Whatever else
comes of a value is one of two faults, and then a limit is crossed. -/
theorem signal_denotes (m : Module) (v : Value) :
    (∀ row, (∃ s, signal m v = .ok s ∧ s.bits = row) ↔ Denotes m v row ∧ v.WithinLimits) ∧
    (v.WithinLimits → m.WidthsWritable → (∀ row, ¬ Denotes m v row) →
      ∃ fault, signal m v = .error (.format (.inModule m.name (.signal fault)))) ∧
    ∀ fault, signal m v = .error fault →
      (∃ f, fault = .format (.inModule m.name (.signal f))) ∨
      fault = .kind .numberTooLong ∧ ¬ (v.WithinLimits ∧ m.WidthsWritable) ∨
      ∃ width, fault = .kind (.constantTooWide width) ∧ ¬ v.WithinLimits := by
  have settles : Settles (Denotes m v) v.WithinLimits m.WidthsWritable
      ((Signal.ofValue m.named? v).map Signal.bits) := Signal.settles_ofValue v
  cases read : Signal.ofValue m.named? v with
  | ok s =>
    rw [read] at settles
    cases settles with
    | ok inside only =>
      have answer := signal_of_ok read
      refine ⟨fun row => ⟨?_, fun denotes => ?_⟩, fun _ _ none => ?_, fun other failed => ?_⟩
      · rintro ⟨s', answer', rfl⟩
        rw [answer] at answer'
        cases answer'
        exact ⟨(only _).mpr rfl, inside⟩
      · exact ⟨s, answer, ((only row).mp denotes.1).symm⟩
      · exact absurd ((only _).mpr rfl) (none s.bits)
      · rw [answer] at failed
        cases failed
  | error fault =>
    rw [read] at settles
    cases settles with
    | error unmeant told =>
      refine ⟨fun row => ⟨?_, fun denotes => absurd denotes.1 (unmeant denotes.2 row)⟩, ?_, ?_⟩
      · rintro ⟨s, answer, -⟩
        rw [ofValue_of_signal answer] at read
        cases read
      · intro within legible _
        rcases signal_of_settles read told with answer | ⟨-, crossed⟩ | ⟨_, -, crossed⟩
        · exact ⟨fault, answer⟩
        · exact absurd ⟨within, legible⟩ crossed
        · exact absurd within crossed
      · intro other failed
        rcases signal_of_settles read told with
          answer | ⟨answer, crossed⟩ | ⟨width, answer, crossed⟩
        all_goals
          rw [answer] at failed
          cases failed
        · exact .inl ⟨fault, rfl⟩
        · exact .inr (.inl ⟨rfl, crossed⟩)
        · exact .inr (.inr ⟨width, rfl, crossed⟩)

/-- A bus of eight bits. -/
def bus : Declaration := ⟨⟨"\\data", 8, .declared "\\m"⟩, some .input, []⟩

/-- A wire of one bit. -/
def flag : Declaration := ⟨⟨"\\q", 1, .declared "\\m"⟩, none, []⟩

/-- A module with the bus and the wire. -/
def busModule : Module := ⟨"\\m", ⟨[bus, flag], by decide⟩, ∅, [], []⟩

/-- Parts of all kinds, one of them nested. -/
def nestedParts : Value :=
  .list [.text " data [ 6 : 5 ] ", .list [.text "3'b1_X", .bool true], .text "q"]

theorem signal_denotes_nestedParts : Denotes busModule nestedParts
    [.ofWire "\\q" 0, .const '1', .const 'x', .const '1', .const '0',
      .ofWire "\\data" 5, .ofWire "\\data" 6] ∧ nestedParts.WithinLimits :=
  ((signal_denotes busModule nestedParts).1 _).mp ⟨_, rfl, by decide⟩

/-- The digits of a five behind so many zeros that they are one too many. -/
def longDigits : List Char := List.replicate Text.digitLimit '0' ++ ['5']

/-- A constant of eight bits, with these digits. -/
def longFive : String := String.ofList (['8', '\x27', 'd'] ++ longDigits)

/-- A constant of one digit, and of one bit less than are counted in sixty-three bits. -/
def widestOne : String := "9223372036854775807'b1"

/-- The constants of a text declare widths that are counted in sixty-three bits. -/
def DeclaresCountable (text : String) : Prop :=
  ∀ width base digits, IsConstant (Text.trimmed Text.isBlank text.toList) width base digits →
    Text.decimalNumber width < 2 ^ 63

theorem declaresCountable_of_isConstant {text : String} {width digits : List Char} {base : Base}
    (isConstant : IsConstant (Text.trimmed Text.isBlank text.toList) width base digits)
    (countable : Text.decimalNumber width < 2 ^ 63) : DeclaresCountable text := by
  intro width' base' digits' isConstant'
  have read := constant?_of_isConstant isConstant'
  rw [constant?_of_isConstant isConstant] at read
  cases read
  exact countable

theorem denotes_of_accepts {text : String} {width digits : List Char} {base : Base}
    (isConstant : IsConstant (Text.trimmed Text.isBlank text.toList) width base digits)
    (accepts : base.Accepts digits) : ∃ row, Denotes m (.text text) row :=
  ⟨_, .text (.constant isConstant) (.constant accepts)⟩

theorem mem_longDigits {c : Char} (h : c ∈ longDigits) : c = '0' ∨ c = '5' := by
  rcases List.mem_append.mp h with zero | five
  · exact .inl (List.eq_of_mem_replicate zero)
  · exact .inr (List.mem_singleton.mp five)

theorem isConstant_longFive :
    IsConstant (Text.trimmed Text.isBlank longFive.toList) ['8'] .decimal longDigits := by
  have chars : longFive.toList = ['8'] ++ '\x27' :: 'd' :: longDigits := by
    rw [longFive, String.toList_ofList]
    rfl
  have last : ∀ c ∈ longFive.toList.getLast?, Text.isBlank c = false := by
    rw [chars, longDigits, ← List.cons_append, ← List.cons_append, ← List.append_assoc,
      List.getLast?_concat]
    rintro c ⟨⟩
    decide
  have first : ∀ c ∈ longFive.toList.head?, Text.isBlank c = false := by
    rw [chars]
    rintro c ⟨⟩
    decide
  rw [Text.trimmed_eq_self first last, chars]
  refine .intro ⟨List.cons_ne_nil _ _, List.forall_mem_singleton.mpr (by decide)⟩
    List.mem_cons_self (List.append_ne_nil_of_right_ne_nil _ (List.cons_ne_nil _ _)) fun c hc => ?_
  rcases mem_longDigits hc with rfl | rfl <;> decide

theorem accepts_longDigits : Base.decimal.Accepts longDigits := by
  refine ⟨⟨'5', List.mem_append_right _ List.mem_cons_self, by decide⟩, fun c hc => .inl ?_⟩
  rcases mem_longDigits hc with rfl | rfl <;> decide

theorem placed_longDigits : placed longDigits = '5' :: List.replicate Text.digitLimit '0' := by
  have all : longDigits.filter (· != '_') = longDigits := by
    refine List.filter_eq_self.mpr fun c hc => ?_
    rcases mem_longDigits hc with rfl | rfl <;> decide
  rw [placed, all, longDigits, List.reverse_append, List.reverse_replicate]
  rfl

theorem not_hasFewDigits_longDigits : ¬ Base.decimal.HasFewDigits longDigits := by
  rw [Base.HasFewDigits, Text.isShort, decide_eq_true_eq, placed_longDigits, List.length_cons,
    List.length_replicate]
  exact Nat.not_succ_le_self _

/-- Two texts denote bits and are no signals, and what comes of them is no fault of the document:
a number of too many digits ends the reading, and so does a row that cannot be filled up. -/
theorem not_signal_of_denotes :
    (DeclaresCountable longFive ∧ (∃ row, Denotes busModule (.text longFive) row) ∧
      signal busModule (.text longFive) = .error (.kind .numberTooLong)) ∧
    DeclaresCountable widestOne ∧ (∃ row, Denotes busModule (.text widestOne) row) ∧
      signal busModule (.text widestOne) =
        .error (.kind (.constantTooWide 9223372036854775807)) := by
  have widest : IsConstant (Text.trimmed Text.isBlank widestOne.toList)
      "9223372036854775807".toList .binary ['1'] := constant?_eq_some_iff.mp (by decide +kernel)
  have number : Text.decimalNumber "9223372036854775807".toList = 9223372036854775807 := by
    decide +kernel
  have accepts : Base.binary.Accepts ['1'] := List.forall_mem_singleton.mpr (by decide)
  refine ⟨⟨declaresCountable_of_isConstant isConstant_longFive (by decide),
    denotes_of_accepts isConstant_longFive accepts_longDigits, ?_⟩,
    declaresCountable_of_isConstant widest (by rw [number]; decide),
    denotes_of_accepts widest accepts, ?_⟩
  · rw [signal_of_accepts isConstant_longFive accepts_longDigits,
      if_neg fun within => not_hasFewDigits_longDigits within.2]
  · have tooWide : ¬ (9223372036854775807 < rowLimit ∨
        9223372036854775807 ≤ Base.binary.spelled ['1']) := by
      decide +kernel
    rw [signal_of_accepts widest accepts, if_pos ⟨by decide, trivial⟩, number, if_neg tooWide]

end Document

end NearestMux
