import Mathlib.Data.Bool.AllAny
import Mathlib.Data.List.Basic
import NearestMux.Proofs.Lists
import NearestMux.Proofs.Signal.Grammar

/-!
# The bits of a constant — place by place

The reader spells out the digits of a constant as one row of bits, the most significant first, and
fits the row to the width. Here each bit is said by its place alone: the digit that it comes from
and the place within the digit (`Base.bitAt`). A decimal constant has no such digit; its bits are
those of the number. Beyond the digits every bit is zero.

The reader takes just the digits that mean something in the base, and of decimal digits, which are
one number to it, not too many. `Base.reads_bits` says what comes of digits in each case.
-/

namespace NearestMux

/-- The bit of a truth value. -/
def bitChar (b : Bool) : Char := if b then '1' else '0'

/-- A bit of a hexadecimal digit; of an unknown or floating digit every bit is so. -/
def hexBitAt (digit : Char) (k : Nat) : Char :=
  if digit = 'x' ∨ digit = 'X' then 'x'
  else if digit = 'z' ∨ digit = 'Z' then 'z'
  else bitChar (((Text.hexValue? digit).getD 0).testBit k)

/-- The digits that count, the least significant first. -/
def placed (digits : List Char) : List Char := (digits.filter (· != '_')).reverse

namespace Base

/-- The digits that mean something in a base. -/
def Accepts (digits : List Char) : Base → Prop
  | .binary => ∀ c ∈ digits, c ∈ ['0', '1', 'x', 'X', 'z', 'Z', '_']
  | .hexadecimal => True
  | .decimal => (∃ c ∈ digits, c.isDigit = true) ∧ ∀ c ∈ digits, c.isDigit = true ∨ c = '_'

/-- Decimal digits are read as one number, so there may not be too many of them. -/
def HasFewDigits (digits : List Char) : Base → Prop
  | .decimal => Text.isShort (placed digits) = true
  | _ => True

instance (digits : List Char) (base : Base) : Decidable (base.HasFewDigits digits) :=
  match base with
  | .binary => .isTrue trivial
  | .hexadecimal => .isTrue trivial
  | .decimal => inferInstanceAs (Decidable (Text.isShort (placed digits) = true))

/-- How many bits the digits spell out before they are fitted to a width. -/
def spelled (digits : List Char) : Base → Nat
  | .binary => (placed digits).length
  | .hexadecimal => 4 * (placed digits).length
  | .decimal => (Text.decimalNumber (placed digits).reverse).log2 + 1

/-- The bit of a constant at a place. -/
def bitAt (digits : List Char) (k : Nat) : Base → Char
  | .binary => (placed digits)[k]?.elim '0' Char.toLower
  | .hexadecimal => (placed digits)[k / 4]?.elim '0' (hexBitAt · (k % 4))
  | .decimal => bitChar ((Text.decimalNumber (placed digits).reverse).testBit k)

end Base

open SignalShape

variable {digits bits : List Char} {base : Base} {n : Nat}

/-! ## Fitting -/

/-- A fitted row has at each place the bit of the row, or a zero beyond it. -/
theorem fittedBits_eq (width : Nat) (bits : List Char) :
    fittedBits width bits = (List.range width).map fun k => (bits.reverse[k]?).getD '0' := by
  apply List.ext_getElem?
  intro k
  rw [List.getElem?_map]
  by_cases inside : k < width
  · rw [List.getElem?_range inside, Option.map_some]
    by_cases written : k < bits.length
    · have taken : k < (bits.reverse.take width).length := by
        rw [List.length_take, List.length_reverse]
        omega
      have there : k < bits.reverse.length := by rwa [List.length_reverse]
      rw [fittedBits, List.getElem?_append_left taken, List.getElem?_take_of_lt inside,
        List.getElem?_eq_getElem there, Option.getD_some]
    · have beyond : (bits.reverse.take width).length ≤ k := by
        rw [List.length_take, List.length_reverse]
        omega
      have missing : bits.reverse[k]? = none := by
        rw [List.getElem?_eq_none_iff, List.length_reverse]
        omega
      rw [fittedBits, List.getElem?_append_right beyond, List.getElem?_replicate, missing, if_pos]
      · rfl
      · rw [List.length_take, List.length_reverse]
        omega
  · have outside : (fittedBits width bits).length ≤ k := by
      rw [fittedBits, List.length_append, List.length_replicate, List.length_take,
        List.length_reverse]
      omega
    rw [List.getElem?_eq_none outside, List.getElem?_eq_none (by simpa using inside)]
    rfl

/-! ## The digits of each base -/

/-- The digits of a number in base two are its bits. -/
theorem getElem?_toDigits_two (n k : Nat) :
    ((Nat.toDigits 2 n).reverse[k]?).getD '0' = bitChar (n.testBit k) := by
  induction n using Nat.strongRecOn generalizing k with
  | ind n ih =>
    have lowest : ∀ m < 2, Nat.digitChar m = bitChar (m.testBit 0) := by decide
    rw [Nat.toDigits_eq_if (by decide)]
    split
    · next small =>
      cases k with
      | zero => exact lowest n small
      | succ k =>
        have none : n / 2 = 0 := by omega
        rw [Nat.testBit_succ, none, Nat.zero_testBit]
        rfl
    · next large =>
      rw [List.reverse_append, List.reverse_singleton, List.singleton_append]
      cases k with
      | zero =>
        have parity : n.testBit 0 = (n % 2).testBit 0 := by
          simp only [Nat.testBit_zero, Nat.mod_mod]
        rw [List.getElem?_cons_zero, Option.getD_some, parity]
        exact lowest (n % 2) (Nat.mod_lt n (by decide))
      | succ k =>
        rw [List.getElem?_cons_succ, Nat.testBit_succ]
        exact ih (n / 2) (by omega) k

theorem reverse_hexBits : ∀ c ∈ constantDigits, c ≠ '_' →
    (Base.hexBits c.toLower).reverse = (List.range 4).map (hexBitAt c) :=
  List.all_iff_forall_prop.mp (by decide)

theorem isBit_toLower : ∀ c ∈ constantDigits, c ≠ '_' →
    (Base.isBit c.toLower = true ↔ c ∈ ['0', '1', 'x', 'X', 'z', 'Z', '_']) :=
  List.all_iff_forall_prop.mp (by decide)

theorem isDigit_toLower : ∀ c ∈ constantDigits, c.toLower.isDigit = c.isDigit :=
  List.all_iff_forall_prop.mp (by decide)

theorem toLower_of_isDigit : ∀ c ∈ constantDigits, c.isDigit = true → c.toLower = c :=
  List.all_iff_forall_prop.mp (by decide)

theorem mem_placed {c : Char} : c ∈ placed digits ↔ c ∈ digits ∧ c ≠ '_' := by
  simp [placed]

/-- The digits as the reader spells them out. -/
theorem map_toLower_placed (digits : List Char) :
    (digits.filter (· != '_')).map Char.toLower = ((placed digits).map Char.toLower).reverse := by
  rw [placed, List.map_reverse, List.reverse_reverse]

theorem all_map_toLower_iff {p : Char → Bool} :
    ((digits.filter (· != '_')).map Char.toLower).all p = true ↔
      ∀ c ∈ digits, c ≠ '_' → p c.toLower = true := by
  simp [or_iff_not_imp_left]

theorem accepts_binary_iff (allDigits : ∀ c ∈ digits, c ∈ constantDigits) :
    ((digits.filter (· != '_')).map Char.toLower).all Base.isBit = true ↔
      Base.binary.Accepts digits := by
  rw [all_map_toLower_iff]
  refine forall₂_congr fun c hc => ?_
  by_cases skipped : c = '_'
  · subst skipped
    decide
  · rw [forall_prop_of_true skipped, isBit_toLower c (allDigits c hc) skipped]

theorem accepts_decimal_iff (allDigits : ∀ c ∈ digits, c ∈ constantDigits) :
    (!((digits.filter (· != '_')).map Char.toLower).isEmpty &&
      ((digits.filter (· != '_')).map Char.toLower).all Char.isDigit) = true ↔
      Base.decimal.Accepts digits := by
  have someDigit : ¬ ((digits.filter (· != '_')).map Char.toLower).isEmpty = true ↔
      ∃ c ∈ digits, c ≠ '_' := by simp
  rw [Bool.and_eq_true, Bool.not_eq_true', ← Bool.not_eq_true, someDigit, all_map_toLower_iff]
  constructor
  · rintro ⟨⟨c, hc, counts⟩, all⟩
    refine ⟨⟨c, hc, ?_⟩, fun d hd => ?_⟩
    · rw [← isDigit_toLower c (allDigits c hc)]
      exact all c hc counts
    · by_cases skipped : d = '_'
      · exact Or.inr skipped
      · rw [← isDigit_toLower d (allDigits d hd)]
        exact Or.inl (all d hd skipped)
  · rintro ⟨⟨c, hc, isDigit⟩, all⟩
    refine ⟨⟨c, hc, ?_⟩, fun d hd counts => ?_⟩
    · rintro rfl
      exact absurd isDigit (by decide)
    · rw [isDigit_toLower d (allDigits d hd)]
      exact (all d hd).resolve_right counts

/-- Decimal digits are spelled out as they stand. -/
theorem map_toLower_of_accepts (allDigits : ∀ c ∈ digits, c ∈ constantDigits)
    (accepts : Base.decimal.Accepts digits) :
    (digits.filter (· != '_')).map Char.toLower = (placed digits).reverse := by
  rw [placed, List.reverse_reverse]
  refine (List.map_congr_left fun c hc => ?_).trans (List.map_id _)
  obtain ⟨there, counts⟩ := List.mem_filter.mp hc
  have isDigit := (accepts.2 c there).resolve_right (by simpa using counts)
  exact toLower_of_isDigit c (allDigits c there) isDigit

theorem isShort_decimal_iff :
    Text.isShort ((digits.filter (· != '_')).map Char.toLower) = true ↔
      Base.decimal.HasFewDigits digits := by
  rw [map_toLower_placed, Base.HasFewDigits, Text.isShort, Text.isShort, List.length_reverse,
    List.length_map]

/-- Decimal digits that give bits write a number, and the bits are the digits of that number in base
two. -/
theorem bits_decimal_of_ok (h : Base.decimal.bits digits = .ok bits) :
    bits = Nat.toDigits 2
      (Text.decimalNumber ((digits.filter (· != '_')).map Char.toLower)) ∧
    (!((digits.filter (· != '_')).map Char.toLower).isEmpty &&
      ((digits.filter (· != '_')).map Char.toLower).all Char.isDigit) = true := by
  simp only [Base.bits] at h
  split at h
  · next given =>
    split at h
    · cases h
      exact ⟨rfl, given⟩
    · cases h
  · cases h

/-- A hexadecimal digit is spelled out as its four bits. -/
theorem hexBits_toLower {c : Char} (isDigit : c ∈ constantDigits) (counts : c ≠ '_') :
    Base.hexBits c.toLower = ((List.range 4).map (hexBitAt c)).reverse :=
  List.reverse_eq_iff.mp (reverse_hexBits c isDigit counts)

/-- Whatever the reader makes of the digits has, fitted to a width, the bit of the constant at each
place. -/
theorem fittedBits_of_bits (allDigits : ∀ c ∈ digits, c ∈ constantDigits)
    (h : base.bits digits = .ok bits) (width : Nat) :
    fittedBits width bits = (List.range width).map (base.bitAt digits) := by
  rw [fittedBits_eq]
  refine List.map_congr_left fun k _ => ?_
  cases base with
  | binary =>
    simp only [Base.bits] at h
    split at h
    · cases h
      rw [map_toLower_placed, List.reverse_reverse, List.getElem?_map, Base.bitAt]
      cases (placed digits)[k]? <;> rfl
    · cases h
  | hexadecimal =>
    simp only [Base.bits] at h
    cases h
    have blocks : (((digits.filter (· != '_')).map Char.toLower).flatMap Base.hexBits).reverse =
        (placed digits).flatMap fun c => (List.range 4).map (hexBitAt c) := by
      rw [map_toLower_placed, List.reverse_flatMap, List.reverse_reverse, List.flatMap_map]
      refine List.flatMap_congr fun c hc => ?_
      obtain ⟨there, counts⟩ := mem_placed.mp hc
      exact reverse_hexBits c (allDigits c there) counts
    have size : ∀ c ∈ placed digits, ((List.range 4).map (hexBitAt c)).length = 4 := by
      intro c _
      rw [List.length_map, List.length_range]
    rw [blocks, getElem?_flatMap (by decide) size, Base.bitAt]
    cases (placed digits)[k / 4]? with
    | none => rfl
    | some c =>
      have within : k % 4 < 4 := Nat.mod_lt k (by decide)
      rw [Option.bind_some, List.getElem?_map, List.getElem?_range within]
      rfl
  | decimal =>
    obtain ⟨rfl, given⟩ := bits_decimal_of_ok h
    have accepts := (accepts_decimal_iff allDigits).mp given
    rw [getElem?_toDigits_two, Base.bitAt, map_toLower_of_accepts allDigits accepts]

theorem length_toDigits_two (n : Nat) : (Nat.toDigits 2 n).length = n.log2 + 1 := by
  induction n using Nat.strongRecOn with
  | ind n ih =>
    rw [Nat.toDigits_eq_if (by decide), Nat.log2_def]
    by_cases small : n < 2
    · rw [if_pos small, if_neg (by omega)]
      rfl
    · rw [if_neg small, if_pos (by omega), List.length_append, ih (n / 2) (by omega)]
      rfl

/-- The reader spells out the bits of the digits before it fits them to a width. -/
theorem length_of_bits (allDigits : ∀ c ∈ digits, c ∈ constantDigits)
    (h : base.bits digits = .ok bits) : bits.length = base.spelled digits := by
  cases base with
  | binary =>
    simp only [Base.bits] at h
    split at h
    · cases h
      rw [map_toLower_placed, List.length_reverse, List.length_map]
      rfl
    · cases h
  | hexadecimal =>
    simp only [Base.bits] at h
    cases h
    have four : ∀ c ∈ (digits.filter (· != '_')).map Char.toLower, (Base.hexBits c).length = 4 := by
      intro lower hlower
      obtain ⟨c, hc, rfl⟩ := List.mem_map.mp hlower
      obtain ⟨there, counts⟩ := List.mem_filter.mp hc
      rw [hexBits_toLower (allDigits c there) (by simpa using counts)]
      rfl
    rw [length_flatMap_of_length four, map_toLower_placed, List.length_reverse, List.length_map]
    rfl
  | decimal =>
    obtain ⟨rfl, given⟩ := bits_decimal_of_ok h
    have accepts := (accepts_decimal_iff allDigits).mp given
    rw [map_toLower_of_accepts allDigits accepts, length_toDigits_two]
    rfl

/-! ## What comes of the digits -/

/-- What the reader may make of digits: bits, of just the digits that mean something in the base and
are few enough; else it is told which of the two is wrong, the meaning first. -/
inductive Base.Reads (base : Base) (digits : List Char) : Except ConstantFault (List Char) → Prop
    where
  | ok {bits : List Char} (accepts : base.Accepts digits) (few : base.HasFewDigits digits)
      (length : bits.length = base.spelled digits)
      (row : ∀ width, fittedBits width bits = (List.range width).map (base.bitAt digits)) :
      Reads base digits (.ok bits)
  | tooMany {count : Nat} (accepts : base.Accepts digits) (many : ¬ base.HasFewDigits digits) :
      Reads base digits (.error (.tooManyDigits count))
  | malformed {fault : ConstantFault} (refused : ¬ base.Accepts digits)
      (other : ∀ count, fault ≠ .tooManyDigits count) : Reads base digits (.error fault)

theorem Base.Reads.of_ok (allDigits : ∀ c ∈ digits, c ∈ constantDigits)
    (accepts : base.Accepts digits) (few : base.HasFewDigits digits)
    (h : base.bits digits = .ok bits) : base.Reads digits (base.bits digits) := by
  rw [h]
  exact .ok accepts few (length_of_bits allDigits h) (fittedBits_of_bits allDigits h)

theorem Base.reads_bits (allDigits : ∀ c ∈ digits, c ∈ constantDigits) :
    base.Reads digits (base.bits digits) := by
  cases base with
  | binary =>
    by_cases accepts : Base.binary.Accepts digits
    · exact .of_ok allDigits accepts trivial (if_pos ((accepts_binary_iff allDigits).mpr accepts))
    · simp only [Base.bits]
      rw [if_neg fun given => accepts ((accepts_binary_iff allDigits).mp given)]
      exact .malformed accepts fun _ => ConstantFault.noConfusion
  | hexadecimal => exact .of_ok allDigits trivial trivial rfl
  | decimal =>
    by_cases accepts : Base.decimal.Accepts digits
    · have given := (accepts_decimal_iff allDigits).mpr accepts
      by_cases few : Base.decimal.HasFewDigits digits
      · exact .of_ok allDigits accepts few
          ((if_pos given).trans (if_pos (isShort_decimal_iff.mpr few)))
      · simp only [Base.bits]
        rw [if_pos given, if_neg fun short => few (isShort_decimal_iff.mp short)]
        exact .tooMany accepts few
    · simp only [Base.bits]
      rw [if_neg fun given => accepts ((accepts_decimal_iff allDigits).mp given)]
      exact .malformed accepts fun _ => ConstantFault.noConfusion

end NearestMux
