/-!
# Blank characters — what separates and surrounds

Two sets of blanks are in use. A signal text is trimmed of every Unicode blank, which counts the
four information separators of ASCII (`0x1c` to `0x1f`) among the blanks. A numeral is trimmed of
the same set without those four.
-/

namespace NearestMux.Text

/-- A Unicode blank: the ASCII controls from tab to carriage return, the four information
separators, the space, and the blanks beyond ASCII. -/
def isBlank (c : Char) : Bool :=
  let n := c.toNat
  decide ((0x09 ≤ n ∧ n ≤ 0x0d) ∨ (0x1c ≤ n ∧ n ≤ 0x20) ∨ n = 0x85 ∨ n = 0xa0 ∨ n = 0x1680 ∨
    (0x2000 ≤ n ∧ n ≤ 0x200a) ∨ n = 0x2028 ∨ n = 0x2029 ∨ n = 0x202f ∨ n = 0x205f ∨ n = 0x3000)

/-- A blank around a numeral: a Unicode blank that is not an information separator. -/
def isNumeralBlank (c : Char) : Bool :=
  isBlank c && !decide (0x1c ≤ c.toNat ∧ c.toNat ≤ 0x1f)

/-- The text without the characters of a class at its two ends. -/
def trimmed (blank : Char → Bool) (cs : List Char) : List Char :=
  ((cs.dropWhile blank).reverse.dropWhile blank).reverse

example : trimmed isBlank [' ', 'a', ' ', 'b', '\t', '\n'] = ['a', ' ', 'b'] := by decide
example : isBlank '\x1f' = true ∧ isNumeralBlank '\x1f' = false := by decide

end NearestMux.Text
