import Mathlib.Data.Nat.Digits.Defs
import NearestMux.Proofs.Signal.Meaning

/-!
# Notations — one number in three bases

A number can be written as a constant in binary, hexadecimal or decimal digits. Each base is read by
a rule of its own: binary digits are bits, hexadecimal ones are four bits each, and of decimal
digits the whole number is taken first. This module says that the three rules agree, with each other
and with the bits of an integer (`Document.notations_agree`).

What digits write is said without bits: it is the number of the row in the base (`Base.Writes`).
That a place of the row is a place of the number is one fact for all bases that are powers of two
(`testBit_ofDigits`); the decimal base needs none, since its number is read as a number.

Two things the theorem does not say of all constants.

* A width or a decimal number of too many digits is not read, and a width at the limit of a row or
  beyond is refused where zeros would have to be filled in (`Document.not_notations_agree`). These
  are the limits of reading (`SignalShape.WithinLimits`), and there are no others.
* Unknown and floating digits write no number. A hexadecimal constant with such digits is the binary
  one with each digit spelled out (`Document.signal_of_spelledOut`).
-/

namespace NearestMux

open SignalShape

variable {width digits : List Char} {base : Base} {n v : Nat} {m : Module}

/-! ## Numbers in digits -/

/-- The number that a digit stands for. -/
def digitValue (c : Char) : Nat := (Text.hexValue? c).getD 0

namespace Base

/-- The number of digits of a base. -/
def radix : Base → Nat
  | .binary => 2
  | .hexadecimal => 16
  | .decimal => 10

/-- Digits write a number in a base: there are some, all of them are digits of the base, and their
number is that one. Underscores do not count, zeros may stand in front. -/
structure Writes (base : Base) (digits : List Char) (v : Nat) : Prop where
  given : placed digits ≠ []
  small : ∀ c ∈ placed digits, ∃ d < base.radix, Text.hexValue? c = some d
  value : Nat.ofDigits base.radix ((placed digits).map digitValue) = v

end Base

/-- The binary digits that hexadecimal ones are spelled out as, four for each, the most significant
first. -/
def spelledOut (digits : List Char) : List Char :=
  (digits.filter (· != '_')).flatMap fun c => ((List.range 4).map (hexBitAt c)).reverse

/-- The number that a row of constant bits writes, the least significant first. -/
def rowNumber (row : List Bit) : Nat :=
  Nat.ofDigits 2 (row.map fun b => if b = .const '1' then 1 else 0)

/-- The bits of a number in a base that is a power of two are those of its digits. -/
theorem testBit_ofDigits {size : Nat} (hsize : 0 < size) {row : List Nat}
    (small : ∀ d ∈ row, d < 2 ^ size) (k : Nat) :
    (Nat.ofDigits (2 ^ size) row).testBit k = ((row[k / size]?).getD 0).testBit (k % size) := by
  induction row generalizing k with
  | nil => simp
  | cons d rest ih =>
    obtain ⟨first, others⟩ := List.forall_mem_cons.mp small
    -- the first digit fills the lowest places, and the rest is shifted behind them
    rw [Nat.ofDigits_cons, Nat.add_comm, Nat.testBit_two_pow_mul_add _ first]
    split
    · next inFirst =>
      rw [Nat.div_eq_of_lt inFirst, Nat.mod_eq_of_lt inFirst]
      rfl
    · next behind =>
      obtain ⟨place, within⟩ := div_mod_of_le hsize (not_lt.mp behind)
      rw [ih others, place, within, List.getElem?_cons_succ]

/-- The number of as many bits as are counted is the number up to that power of two. -/
theorem rowNumber_bits (v n : Nat) :
    rowNumber ((List.range n).map fun k => .const (bitChar (v.testBit k))) = v % 2 ^ n := by
  have bit : ∀ b : Bool, (if Bit.const (bitChar b) = .const '1' then 1 else 0) = b.toNat := by
    decide
  have row : rowNumber ((List.range n).map fun k => .const (bitChar (v.testBit k))) =
      Nat.ofDigits (2 ^ 1) ((List.range n).map fun k => (v.testBit k).toNat) := by
    unfold rowNumber
    rw [List.map_map]
    simp only [Function.comp_def, bit, Nat.pow_one]
  have small : ∀ d ∈ (List.range n).map fun k => (v.testBit k).toNat, d < 2 ^ 1 := by
    intro d hd
    obtain ⟨k, -, rfl⟩ := List.mem_map.mp hd
    exact Bool.toNat_lt _
  apply Nat.eq_of_testBit_eq
  intro k
  rw [row, testBit_ofDigits (by decide) small, Nat.div_one, Nat.mod_one, Nat.testBit_mod_two_pow,
    List.getElem?_map]
  by_cases within : k < n
  · rw [List.getElem?_range within, Option.map_some, Option.getD_some]
    cases v.testBit k <;> simp [within]
  · rw [List.getElem?_eq_none (by simpa using within)]
    simp [within]

/-! ## The digits of each base -/

theorem toLower_of_hexValue? : ∀ c ∈ constantDigits, ∀ d ∈ Text.hexValue? c, d < 2 →
    c.toLower = bitChar (d.testBit 0) :=
  List.all_iff_forall_prop.mp (by decide)

theorem isBit_of_hexValue? : ∀ c ∈ constantDigits, ∀ d ∈ Text.hexValue? c, d < 2 →
    c ∈ ['0', '1', 'x', 'X', 'z', 'Z', '_'] :=
  List.all_iff_forall_prop.mp (by decide)

theorem decimalValue?_of_hexValue? : ∀ c ∈ constantDigits, ∀ d ∈ Text.hexValue? c, d < 10 →
    c.isDigit = true ∧ Text.decimalValue? c = some d :=
  List.all_iff_forall_prop.mp (by decide)

theorem hexBitAt_of_hexValue? {c : Char} {d : Nat} (isValue : Text.hexValue? c = some d) (k : Nat) :
    hexBitAt c k = bitChar (d.testBit k) := by
  have notUnknown : ¬ (c = 'x' ∨ c = 'X') := by
    rintro (rfl | rfl) <;> cases isValue
  have notFloating : ¬ (c = 'z' ∨ c = 'Z') := by
    rintro (rfl | rfl) <;> cases isValue
  rw [hexBitAt, if_neg notUnknown, if_neg notFloating, isValue, Option.getD_some]

theorem digitValue_of_hexValue? {c : Char} {d : Nat} (isValue : Text.hexValue? c = some d) :
    digitValue c = d := by
  rw [digitValue, isValue, Option.getD_some]

/-- The digits of a decimal row, the least significant first, and the number that the row writes. -/
theorem decimalNumber_reverse {row : List Char}
    (digits : ∀ c ∈ row, Text.decimalValue? c = some (digitValue c)) :
    Text.decimalNumber row.reverse = Nat.ofDigits 10 (row.map digitValue) := by
  induction row with
  | nil => rfl
  | cons c rest ih =>
    obtain ⟨first, others⟩ := List.forall_mem_cons.mp digits
    have step : Text.decimalNumber (c :: rest).reverse =
        10 * Text.decimalNumber rest.reverse + digitValue c := by
      rw [List.reverse_cons, Text.decimalNumber, List.foldl_append, List.foldl_cons, List.foldl_nil,
        first]
      rfl
    rw [step, ih others, List.map_cons, Nat.ofDigits_cons, Nat.add_comm]

namespace Base.Writes

theorem small_digitValue (writes : base.Writes digits v) :
    ∀ d ∈ (placed digits).map digitValue, d < base.radix := by
  intro d hd
  obtain ⟨c, hc, rfl⟩ := List.mem_map.mp hd
  obtain ⟨d, small, isValue⟩ := writes.small c hc
  rw [digitValue_of_hexValue? isValue]
  exact small

/-- Digits that write a number mean something. -/
theorem accepts (allDigits : ∀ c ∈ digits, c ∈ constantDigits) (writes : base.Writes digits v) :
    base.Accepts digits := by
  cases base with
  | binary =>
    intro c hc
    by_cases skipped : c = '_'
    · rw [skipped]
      decide
    · obtain ⟨d, small, isValue⟩ := writes.small c (mem_placed.mpr ⟨hc, skipped⟩)
      exact isBit_of_hexValue? c (allDigits c hc) d isValue small
  | hexadecimal => trivial
  | decimal =>
    have isDigit : ∀ c ∈ placed digits, c.isDigit = true := by
      intro c hc
      obtain ⟨d, small, isValue⟩ := writes.small c hc
      exact (decimalValue?_of_hexValue? c (allDigits c (mem_placed.mp hc).1) d isValue small).1
    obtain ⟨c, hc⟩ := List.exists_mem_of_ne_nil _ writes.given
    refine ⟨⟨c, (mem_placed.mp hc).1, isDigit c hc⟩, fun c hc => ?_⟩
    by_cases skipped : c = '_'
    · exact .inr skipped
    · exact .inl (isDigit c (mem_placed.mpr ⟨hc, skipped⟩))

/-- Digits that write a number in a base of so many bits a digit have the bits of the number. -/
theorem testBit_eq (writes : base.Writes digits v) {size : Nat} (hsize : 0 < size)
    (radix : base.radix = 2 ^ size) (k : Nat) :
    v.testBit k = (((placed digits)[k / size]?).elim 0 digitValue).testBit (k % size) := by
  have small : ∀ d ∈ (placed digits).map digitValue, d < 2 ^ size := by
    rw [← radix]
    exact writes.small_digitValue
  rw [← writes.value, radix, testBit_ofDigits hsize small, List.getElem?_map]
  cases (placed digits)[k / size]? <;> rfl

/-- The decimal number is taken as it is written. -/
theorem decimalNumber_eq (allDigits : ∀ c ∈ digits, c ∈ constantDigits)
    (writes : Base.decimal.Writes digits v) : Text.decimalNumber (placed digits).reverse = v := by
  rw [decimalNumber_reverse]
  · exact writes.value
  · intro c hc
    obtain ⟨d, small, isValue⟩ := writes.small c hc
    rw [digitValue_of_hexValue? isValue]
    exact (decimalValue?_of_hexValue? c (allDigits c (mem_placed.mp hc).1) d isValue small).2

/-- Digits that write a number are read as the bits of the number, in whichever base. -/
theorem bitAt_eq (allDigits : ∀ c ∈ digits, c ∈ constantDigits) (writes : base.Writes digits v)
    (k : Nat) : base.bitAt digits k = bitChar (v.testBit k) := by
  cases base with
  | binary =>
    rw [writes.testBit_eq Nat.one_pos rfl, Nat.div_one, Nat.mod_one, Base.bitAt]
    cases there : (placed digits)[k]? with
    | none => rfl
    | some c =>
      have hc := List.mem_of_getElem? there
      obtain ⟨d, small, isValue⟩ := writes.small c hc
      show c.toLower = bitChar ((digitValue c).testBit 0)
      rw [digitValue_of_hexValue? isValue]
      exact toLower_of_hexValue? c (allDigits c (mem_placed.mp hc).1) d isValue small
  | hexadecimal =>
    rw [writes.testBit_eq (Nat.succ_pos 3) rfl, Base.bitAt]
    cases there : (placed digits)[k / 4]? with
    | none => simp [bitChar]
    | some c =>
      obtain ⟨d, -, isValue⟩ := writes.small c (List.mem_of_getElem? there)
      show hexBitAt c (k % 4) = bitChar ((digitValue c).testBit (k % 4))
      rw [digitValue_of_hexValue? isValue]
      exact hexBitAt_of_hexValue? isValue _
  | decimal => rw [Base.bitAt, writes.decimalNumber_eq allDigits]

end Base.Writes

/-! ## Constants of a document -/

namespace Signal

/-- A constant of a number is the signal of its low bits. -/
theorem ofInt_natCast (v n : Nat) :
    ofInt v n = ofChunks [.const ((List.range n).map fun k => bitChar (v.testBit k))] := by
  rw [ofInt_eq]
  rfl

/-- The low bits of an integer are those of the number that it leaves by the power of two. -/
theorem testBit_emod_two_pow (i : Int) {n k : Nat} (within : k < n) :
    (i % 2 ^ n).testBit k = i.testBit k := by
  have shift : ∀ j : Int, j >>> k = j / 2 ^ k := by
    intro j
    rw [Int.shiftRight_eq_div_pow]
    norm_cast
  have split : (2 : Int) ^ n = 2 ^ k * (2 * 2 ^ (n - k - 1)) := by
    rw [← pow_succ', ← pow_add]
    congr 1
    omega
  have positive : (2 : Int) ^ k ≠ 0 := pow_ne_zero k (by decide)
  -- what is taken away is a multiple of two still when the places below are shifted out
  have whole : i >>> k = (i % 2 ^ n) >>> k + 2 * (2 ^ (n - k - 1) * (i / 2 ^ n)) := by
    calc i >>> k = (i % 2 ^ n + 2 ^ n * (i / 2 ^ n)) / 2 ^ k := by rw [Int.emod_add_mul_ediv, shift]
      _ = (i % 2 ^ n + 2 ^ k * (2 * (2 ^ (n - k - 1) * (i / 2 ^ n)))) / 2 ^ k := by
        congr 2
        rw [← Int.mul_assoc 2, ← Int.mul_assoc, ← split]
      _ = (i % 2 ^ n) / 2 ^ k + 2 * (2 ^ (n - k - 1) * (i / 2 ^ n)) :=
        Int.add_mul_ediv_left _ _ positive
      _ = (i % 2 ^ n) >>> k + 2 * (2 ^ (n - k - 1) * (i / 2 ^ n)) := by rw [shift]
  rw [Bool.eq_iff_iff, ← shiftRight_emod_two_iff, ← shiftRight_emod_two_iff, whole,
    Int.add_mul_emod_self_left]

/-- An integer and the number that it leaves by the power of two have the same low bits. -/
theorem ofInt_emod (i : Int) (n : Nat) : ofInt i n = ofInt (i % 2 ^ n) n := by
  rw [ofInt_eq, ofInt_eq]
  congr 3
  refine List.map_congr_left fun k hk => ?_
  rw [testBit_emod_two_pow i (List.mem_range.mp hk)]

/-- The low bits of an integer write the number that it leaves by the power of two. -/
theorem rowNumber_ofInt (i : Int) (n : Nat) :
    rowNumber (ofInt i n).bits = (i % 2 ^ n).toNat := by
  have positive : (0 : Int) < 2 ^ n := pow_pos (by decide) n
  obtain ⟨v, isLeft⟩ := Int.eq_ofNat_of_zero_le (Int.emod_nonneg i positive.ne')
  have small : v < 2 ^ n := by
    have less := Int.emod_lt_of_pos i positive
    rw [isLeft] at less
    exact_mod_cast less
  rw [ofInt_emod, isLeft, bits_ofInt]
  exact (rowNumber_bits v n).trans (Nat.mod_eq_of_lt small)

theorem size_ofInt (i : Int) (n : Nat) : (ofInt i n).size = n := by
  rw [← length_bits, bits_ofInt, List.length_map, List.length_range]

end Signal

namespace Document

variable {text text' : String} {width' digits' : List Char}

/-- A constant whose digits write a number is the signal of the low bits of the number, unless one
of the limits of reading is crossed. -/
theorem signal_of_writes
    (isConstant : IsConstant (Text.trimmed Text.isBlank text.toList) width base digits)
    (writes : base.Writes digits v) :
    signal m (.text text) =
      if Text.isShort width = true ∧ base.HasFewDigits digits then
        if Text.decimalNumber width < rowLimit ∨ Text.decimalNumber width ≤ base.spelled digits then
          .ok (.ofInt v (Text.decimalNumber width))
        else .error (.kind (.constantTooWide (Text.decimalNumber width)))
      else .error (.kind .numberTooLong) := by
  have allDigits := isConstant.allDigits
  have row : (List.range (Text.decimalNumber width)).map (base.bitAt digits) =
      (List.range (Text.decimalNumber width)).map fun k => bitChar (v.testBit k) :=
    List.map_congr_left fun k _ => writes.bitAt_eq allDigits k
  rw [signal_of_accepts isConstant (writes.accepts allDigits), row, Signal.ofInt_natCast]

theorem isBit_hexBits : ∀ c ∈ constantDigits, c ≠ '_' →
    (Base.hexBits c.toLower).all Base.isBit = true :=
  List.all_iff_forall_prop.mp (by decide)

/-- Hexadecimal digits are read as the binary ones that they are spelled out as. -/
theorem bits_hexadecimal (allDigits : ∀ c ∈ digits, c ∈ constantDigits) :
    Base.hexadecimal.bits digits = .ok (spelledOut digits) ∧
      (spelledOut digits).all Base.isBit = true := by
  have each : ∀ c ∈ digits.filter (· != '_'), c ∈ constantDigits ∧ c ≠ '_' := by
    intro c hc
    obtain ⟨there, counts⟩ := List.mem_filter.mp hc
    exact ⟨allDigits c there, by simpa using counts⟩
  have row : ((digits.filter (· != '_')).map Char.toLower).flatMap Base.hexBits =
      spelledOut digits := by
    rw [List.flatMap_map]
    exact List.flatMap_congr fun c hc => hexBits_toLower (each c hc).1 (each c hc).2
  refine ⟨congrArg Except.ok row, ?_⟩
  rw [← row, List.flatMap_map, List.all_flatMap, List.all_eq_true]
  intro c hc
  exact isBit_hexBits c (each c hc).1 (each c hc).2

/-- A hexadecimal constant is the binary one with its digits spelled out. -/
theorem signal_of_spelledOut
    (isHex : IsConstant (Text.trimmed Text.isBlank text.toList) width .hexadecimal digits)
    (isBinary : IsConstant (Text.trimmed Text.isBlank text'.toList) width' .binary digits')
    (sameWidth : Text.decimalNumber width = Text.decimalNumber width')
    (alike : Text.isShort width = Text.isShort width')
    (spelled : (digits'.filter (· != '_')).map Char.toLower = spelledOut digits) :
    signal m (.text text) = signal m (.text text') := by
  by_cases short : Text.isShort width = true
  · obtain ⟨read, areBits⟩ := bits_hexadecimal isHex.allDigits
    have read' : Base.binary.bits digits' = .ok (spelledOut digits) := by
      rw [← spelled] at areBits
      simp only [Base.bits]
      rw [if_pos areBits, spelled]
    rw [signal_of_bits isHex short read, signal_of_bits isBinary (alike ▸ short) read', sameWidth]
  · rw [signal_of_not_isShort isHex short, signal_of_not_isShort isBinary (alike ▸ short)]

/-- **Notations.** A constant whose digits write a number, in whichever base, with zeros in front
and underscores among them, is read as the signal of the low bits of the number, as many as the
width says. It is not read when its width, or a decimal number, has too many digits, or when zeros
would have to be filled in up to the limit of a row. These bits are the bits of the number, and they
write what the number leaves by the power of two. A hexadecimal constant is read as the binary one
with its digits spelled out, the unknown and floating ones too. An integer is read as its thirty-two
low bits, which write what it leaves by that power of two. -/
theorem notations_agree (m : Module) :
    (∀ (text : String) (width : List Char) (base : Base) (digits : List Char) (v : Nat),
      IsConstant (Text.trimmed Text.isBlank text.toList) width base digits →
      base.Writes digits v →
        signal m (.text text) =
          if Text.isShort width = true ∧ base.HasFewDigits digits then
            if Text.decimalNumber width < rowLimit ∨
                Text.decimalNumber width ≤ base.spelled digits then
              .ok (.ofInt v (Text.decimalNumber width))
            else .error (.kind (.constantTooWide (Text.decimalNumber width)))
          else .error (.kind .numberTooLong)) ∧
    (∀ v n : Nat,
      (Signal.ofInt v n).bits = (List.range n).map (fun k => .const (bitChar (v.testBit k))) ∧
        (Signal.ofInt v n).size = n ∧ rowNumber (Signal.ofInt v n).bits = v % 2 ^ n) ∧
    (∀ (text text' : String) (width width' digits digits' : List Char),
      IsConstant (Text.trimmed Text.isBlank text.toList) width .hexadecimal digits →
      IsConstant (Text.trimmed Text.isBlank text'.toList) width' .binary digits' →
      Text.decimalNumber width = Text.decimalNumber width' →
      Text.isShort width = Text.isShort width' →
      (digits'.filter (· != '_')).map Char.toLower = spelledOut digits →
        signal m (.text text) = signal m (.text text')) ∧
    ∀ i : Int, signal m (.int i) = .ok (.ofInt i 32) ∧
      Signal.ofInt i 32 = .ofInt (i % 2 ^ 32) 32 ∧ (Signal.ofInt i 32).size = 32 ∧
      rowNumber (Signal.ofInt i 32).bits = (i % 2 ^ 32).toNat := by
  refine ⟨fun text width base digits v isConstant writes => signal_of_writes isConstant writes,
    fun v n => ⟨Signal.bits_ofInt v n, Signal.size_ofInt v n, ?_⟩,
    fun text text' width width' digits digits' isHex isBinary same alike spelled => ?_, fun i => ?_⟩
  · rw [Signal.rowNumber_ofInt]
    norm_cast
  · exact signal_of_spelledOut isHex isBinary same alike spelled
  · exact ⟨rfl, Signal.ofInt_emod i 32, Signal.size_ofInt i 32, Signal.rowNumber_ofInt i 32⟩

/-- Fifteen, in three bases. -/
theorem notations_agree_fifteen :
    signal busModule (.text "8'b00_1111") = .ok (.ofInt 15 8) ∧
    signal busModule (.text "8'h0F") = .ok (.ofInt 15 8) ∧
    signal busModule (.text "8'd1_5") = .ok (.ofInt 15 8) ∧
    signal busModule (.text "6'hxF") = signal busModule (.text "6'bXXXX_1111") := by
  obtain ⟨numbers, -, spelledOut, -⟩ := notations_agree busModule
  have eight : Text.decimalNumber ['8'] = 8 := by decide
  have below : Text.decimalNumber ['8'] < rowLimit := by decide
  have binary : Base.binary.Writes "00_1111".toList 15 :=
    ⟨by decide, List.all_iff_forall_prop.mp (by decide), by decide⟩
  have hexadecimal : Base.hexadecimal.Writes "0F".toList 15 :=
    ⟨by decide, List.all_iff_forall_prop.mp (by decide), by decide⟩
  have decimal : Base.decimal.Writes "1_5".toList 15 :=
    ⟨by decide, List.all_iff_forall_prop.mp (by decide), by decide⟩
  refine ⟨?_, ?_, ?_, ?_⟩
  · rw [numbers _ ['8'] _ _ 15 (constant?_eq_some_iff.mp (by decide)) binary, if_pos (by decide),
      if_pos (.inl below), eight]
    rfl
  · rw [numbers _ ['8'] _ _ 15 (constant?_eq_some_iff.mp (by decide)) hexadecimal,
      if_pos (by decide), if_pos (.inl below), eight]
    rfl
  · rw [numbers _ ['8'] _ _ 15 (constant?_eq_some_iff.mp (by decide)) decimal, if_pos (by decide),
      if_pos (.inl below), eight]
    rfl
  · exact spelledOut _ _ ['6'] ['6'] "xF".toList "XXXX_1111".toList
      (constant?_eq_some_iff.mp (by decide)) (constant?_eq_some_iff.mp (by decide)) rfl rfl
      (by decide)

theorem writes_longDigits : Base.decimal.Writes longDigits 5 where
  given := by
    rw [placed_longDigits]
    exact List.cons_ne_nil _ _
  small := by
    rw [placed_longDigits]
    refine List.forall_mem_cons.mpr ⟨⟨5, by decide, by decide⟩, fun c hc => ?_⟩
    rw [List.eq_of_mem_replicate hc]
    exact ⟨0, by decide, by decide⟩
  value := by
    have five : digitValue '5' = 5 ∧ digitValue '0' = 0 := by decide
    rw [placed_longDigits, List.map_cons, List.map_replicate, five.1, five.2, Base.radix,
      Nat.ofDigits_cons, Nat.ofDigits_replicate_zero]

/-- Two constants are not read although their digits write a number: a one that zeros would have to
be put in front of, up to the limit of a row, and a five that has too many of them already. -/
theorem not_notations_agree :
    (¬ ∀ (m : Module) (text : String) (width : List Char) (base : Base) (digits : List Char)
      (v : Nat), IsConstant (Text.trimmed Text.isBlank text.toList) width base digits →
      base.Writes digits v → Text.isShort width = true → base.HasFewDigits digits →
        signal m (.text text) = .ok (.ofInt v (Text.decimalNumber width))) ∧
    ¬ ∀ (m : Module) (text : String) (width : List Char) (base : Base) (digits : List Char)
      (v : Nat), IsConstant (Text.trimmed Text.isBlank text.toList) width base digits →
      base.Writes digits v → Text.decimalNumber width < rowLimit →
        signal m (.text text) = .ok (.ofInt v (Text.decimalNumber width)) := by
  constructor
  · intro agree
    have isConstant : IsConstant (Text.trimmed Text.isBlank "9223372036854775808'b1".toList)
        "9223372036854775808".toList .binary ['1'] := constant?_eq_some_iff.mp (by decide +kernel)
    have writes : Base.binary.Writes ['1'] 1 :=
      ⟨by decide, List.all_iff_forall_prop.mp (by decide), by decide⟩
    have tooWide : ¬ (Text.decimalNumber "9223372036854775808".toList < rowLimit ∨
        Text.decimalNumber "9223372036854775808".toList ≤ Base.binary.spelled ['1']) := by
      decide +kernel
    have read := agree busModule _ _ _ _ _ isConstant writes (by decide) trivial
    rw [signal_of_writes isConstant writes, if_pos ⟨by decide, trivial⟩, if_neg tooWide] at read
    cases read
  · intro agree
    have read := agree busModule _ _ _ _ _ isConstant_longFive writes_longDigits (by decide)
    rw [signal_of_writes isConstant_longFive writes_longDigits,
      if_neg fun within => not_hasFewDigits_longDigits within.2] at read
    cases read

end Document

end NearestMux
