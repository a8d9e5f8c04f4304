import Mathlib.Data.List.TakeWhile
import Mathlib.Data.Nat.Digits.Defs
import NearestMux.Text.Blank
import NearestMux.Text.Numeral

/-!
# Digits and blanks — what tells a numeral from what stands around it

A reader takes the longest row of digits, or of blanks, and goes on behind it. That this comes to
the same as saying what the text is made of rests on two facts: a row is cut in one place only
(`takeWhile_append`, `dropWhile_append`), and no character is a digit and a blank
(`isBlank_eq_false_of_isDecimal`), in whatever script.

Writing a number and reading it back gives the number (`decimalNumber_natDigits`), and what is read
from a short row has a short row itself (`isWritable_decimalNumber`), whatever script it was in and
however many zeros stood in front.
-/

namespace NearestMux.Text

variable {c : Char} {cs ds rest : List Char} {p : Char → Bool} {i : Int}

/-! ## Cutting a row -/

theorem takeWhile_append (all : ∀ c ∈ cs, p c = true) (ends : ∀ c ∈ rest.head?, p c = false) :
    (cs ++ rest).takeWhile p = cs := by
  rw [List.takeWhile_append_of_pos all]
  cases rest with
  | nil => exact List.append_nil cs
  | cons d rest =>
    have stops : ¬ p d = true := by
      rw [ends d rfl]
      exact Bool.false_ne_true
    rw [List.takeWhile_cons_of_neg stops, List.append_nil]

theorem dropWhile_append (all : ∀ c ∈ cs, p c = true) (ends : ∀ c ∈ rest.head?, p c = false) :
    (cs ++ rest).dropWhile p = rest := by
  rw [List.dropWhile_append_of_pos all]
  cases rest with
  | nil => rfl
  | cons d rest =>
    have stops : ¬ p d = true := by
      rw [ends d rfl]
      exact Bool.false_ne_true
    rw [List.dropWhile_cons_of_neg stops]

/-- Every row is cut where its first character of another class stands. -/
theorem exists_cut (p : Char → Bool) (cs : List Char) :
    ∃ front back, cs = front ++ back ∧ (∀ c ∈ front, p c = true) ∧ (∀ c ∈ back.head?, p c = false) ∧
      cs.takeWhile p = front ∧ cs.dropWhile p = back := by
  have split : cs = cs.takeWhile p ++ cs.dropWhile p := List.takeWhile_append_dropWhile.symm
  refine ⟨_, _, split, fun _ => List.mem_takeWhile_imp, ?_, rfl, rfl⟩
  intro c hc
  have stops := List.head?_dropWhile_not p cs
  rw [Option.mem_def.mp hc] at stops
  simpa using stops

/-! ## Trimming -/

theorem trimmed_eq_self (first : ∀ c ∈ cs.head?, p c = false)
    (last : ∀ c ∈ cs.getLast?, p c = false) : trimmed p cs = cs := by
  have none := List.forall_mem_nil fun c => p c = true
  have last' : ∀ c ∈ cs.reverse.head?, p c = false := by rwa [List.head?_reverse]
  have front : cs.dropWhile p = cs := dropWhile_append none first
  have back : cs.reverse.dropWhile p = cs.reverse := dropWhile_append none last'
  rw [trimmed, front, back, List.reverse_reverse]

/-- Trimming takes characters of the class away at both ends, and nothing else. -/
theorem exists_trimmed (p : Char → Bool) (cs : List Char) :
    ∃ before after, (∀ c ∈ before, p c = true) ∧ cs = before ++ trimmed p cs ++ after := by
  obtain ⟨before, middle, rfl, all, -, -, drops⟩ := exists_cut p cs
  obtain ⟨after, kept, split, -, -, -, drops'⟩ := exists_cut p middle.reverse
  have whole : middle = kept.reverse ++ after.reverse := by
    rw [← List.reverse_append, ← split, List.reverse_reverse]
  refine ⟨before, after.reverse, all, ?_⟩
  rw [trimmed, drops, drops', List.append_assoc, ← whole]

/-! ## Digits -/

theorem isDecimal_iff : isDecimal c = true ↔
    ∃ first ∈ decimalZeros, first ≤ c.toNat ∧ c.toNat < first + 10 := by
  simp [isDecimal, decimalValue?]

/-- The digits of no script lie among the blanks. -/
theorem decimalZeros_apart : ∀ first ∈ decimalZeros, 0x20 < first ∧
    (first + 9 < 0x85 ∨ 0x85 < first) ∧ (first + 9 < 0xa0 ∨ 0xa0 < first) ∧
    (first + 9 < 0x1680 ∨ 0x1680 < first) ∧ (first + 9 < 0x2000 ∨ 0x205f < first) ∧
    (first + 9 < 0x3000 ∨ 0x3000 < first) := by
  decide

theorem isBlank_eq_false_of_isDecimal (h : isDecimal c = true) : isBlank c = false := by
  obtain ⟨first, known, low, high⟩ := isDecimal_iff.mp h
  have apart := decimalZeros_apart first known
  simp only [isBlank, decide_eq_false_iff_not]
  omega

theorem lt_ten_of_decimalValue? {d : Nat} (h : decimalValue? c = some d) : d < 10 := by
  obtain ⟨first, found, rfl⟩ := Option.map_eq_some_iff.mp h
  have around := List.find?_some found
  simp only [decide_eq_true_eq] at around
  omega

/-- So many digits write a number below that power of ten. -/
theorem decimalNumber_lt (ds : List Char) : decimalNumber ds < 10 ^ ds.length := by
  have step : ∀ total, ds.foldl (fun total c => 10 * total + (decimalValue? c).getD 0) total <
      (total + 1) * 10 ^ ds.length := by
    induction ds with
    | nil => simp
    | cons d rest ih =>
      intro total
      have small : (decimalValue? d).getD 0 < 10 := by
        cases value : decimalValue? d with
        | none => decide
        | some n => exact lt_ten_of_decimalValue? value
      calc rest.foldl (fun total c => 10 * total + (decimalValue? c).getD 0)
              (10 * total + (decimalValue? d).getD 0)
        _ < (10 * total + (decimalValue? d).getD 0 + 1) * 10 ^ rest.length := ih _
        _ ≤ (total + 1) * 10 * 10 ^ rest.length :=
          Nat.mul_le_mul_right _ (by omega)
        _ = (total + 1) * 10 ^ (d :: rest).length := by
          rw [List.length_cons, Nat.pow_succ', Nat.mul_assoc]
  have below := step 0
  rwa [Nat.zero_add, Nat.one_mul] at below

theorem isWritable_natCast (n : Nat) : isWritable n = isShort (natDigits n) := by
  rw [isWritable, Int.natAbs_natCast]

/-- What is read from a short row can be written. -/
theorem isWritable_decimalNumber (short : isShort ds = true) :
    isWritable (decimalNumber ds) = true := by
  rw [isShort, decide_eq_true_eq] at short
  rw [isWritable_natCast, isShort, decide_eq_true_eq]
  have below : decimalNumber ds < 10 ^ digitLimit :=
    (decimalNumber_lt ds).trans_le (Nat.pow_le_pow_right (by decide) short)
  exact Nat.toDigits_length 10 _ digitLimit (by decide) below

/-- Grouped digits are digits and underscores. -/
theorem isDecimal_or_of_groupedDigits? (h : groupedDigits? cs = some ds) :
    ∀ c ∈ cs, (isDecimal c || c == '_') = true := by
  induction cs using groupedDigits?.induct generalizing ds with
  | case1 => exact List.forall_mem_nil _
  | case2 c isDigit => exact List.forall_mem_singleton.mpr (by rw [isDigit, Bool.true_or])
  | case3 c noDigit =>
    rw [groupedDigits?, if_neg noDigit] at h
    cases h
  | case4 c rest isDigit ih =>
    rw [groupedDigits?, if_pos isDigit] at h
    obtain ⟨others, read, -⟩ := Option.map_eq_some_iff.mp h
    exact List.forall_mem_cons.mpr ⟨by rw [isDigit, Bool.true_or],
      List.forall_mem_cons.mpr ⟨by decide, ih read⟩⟩
  | case5 c rest noDigit =>
    rw [groupedDigits?, if_neg noDigit] at h
    cases h
  | case6 c d rest apart isDigit ih =>
    rw [groupedDigits?, if_pos isDigit] at h
    · obtain ⟨others, read, -⟩ := Option.map_eq_some_iff.mp h
      exact List.forall_mem_cons.mpr ⟨by rw [isDigit, Bool.true_or], ih read⟩
    · exact apart
  | case7 c d rest apart noDigit =>
    rw [groupedDigits?, if_neg noDigit] at h
    · cases h
    · exact apart

/-- The number of a numeral is that of the digits that it starts with, and no others follow. -/
theorem natAbs_of_signedNumber? (h : signedNumber? cs = some i) :
    i.natAbs = decimalNumber (leadingDigits cs) := by
  have whole : ∀ {rest ds}, groupedDigits? rest = some ds →
      (groupedDigits? (rest.takeWhile fun c => isDecimal c || c == '_')).getD [] = ds := by
    intro rest ds read
    rw [List.takeWhile_eq_self_iff.mpr (isDecimal_or_of_groupedDigits? read), read,
      Option.getD_some]
  unfold signedNumber? at h
  split at h
  all_goals obtain ⟨ds, read, rfl⟩ := Option.map_eq_some_iff.mp h
  · rw [leadingDigits, whole read, Int.natAbs_neg, Int.natAbs_natCast]
  · rw [leadingDigits, whole read, Int.natAbs_natCast]
  · next noMinus noPlus =>
    have unsigned : leadingDigits cs = ds := by
      unfold leadingDigits
      split
      · exact absurd rfl (noMinus _)
      · exact absurd rfl (noPlus _)
      · exact whole read
    rw [unsigned, Int.natAbs_natCast]

/-- An integer that is read from a text can be written. -/
theorem isWritable_of_integer {text : String} (h : integer text = .ok i) : isWritable i = true := by
  unfold integer at h
  dsimp only at h
  split at h
  · next short =>
    split at h
    · next read =>
      cases h
      rw [isWritable, natAbs_of_signedNumber? read, ← isWritable_natCast]
      exact isWritable_decimalNumber short
    · cases h
  · cases h

end NearestMux.Text
