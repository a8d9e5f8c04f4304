import NearestMux.Signal.Basic

/-!
# The bits of a signal — what joining leaves as it is

A chunk is a shorthand for a row of bits, and so is a signal. A bit is a constant, or it is the bit
of a wire at an index; which of two wires of one name it belongs to is not said, as it is not said
by the keys that signals are compared by.

`bits_ofChunks` is the statement that matters: however a row of chunks is joined, its bits and their
order stay what they were. What the bits do not determine is where a chunk ends and the next one
begins; `IsMerged` settles that for a signal as long as no two of its wires share a name.
-/

namespace NearestMux

/-- A bit of a signal. -/
inductive Bit where
  /-- A constant bit. -/
  | const (value : Char)
  /-- The bit of a wire at an index. -/
  | ofWire (name : String) (index : Nat)
deriving DecidableEq

namespace Chunk

/-- The bits of a chunk, the least significant first. -/
def bits : Chunk → List Bit
  | .const values => values.map Bit.const
  | .slice wire offset width _ => (List.range' offset width).map (Bit.ofWire wire.name)

@[simp] theorem length_bits (c : Chunk) : c.bits.length = c.width := by
  cases c with
  | const values => simp [bits, width]
  | slice wire offset count inside => simp [bits, width]

theorem bits_eq_nil_of_width_eq_zero {c : Chunk} (h : c.width = 0) : c.bits = [] :=
  List.eq_nil_of_length_eq_zero ((length_bits c).trans h)

/-- A joint has the bits of its two parts, in their order. -/
theorem bits_of_join? {c d joint : Chunk} (h : c.join? d = some joint) :
    joint.bits = c.bits ++ d.bits := by
  cases c with
  | const low =>
    cases d with
    | const high =>
      simp only [join?, Option.some.injEq] at h
      subst h
      simp [bits]
    | slice wire offset width inside => simp [join?] at h
  | slice wire offset width inside =>
    cases d with
    | const high => simp [join?] at h
    | slice wire' offset' width' inside' =>
      simp only [join?] at h
      split at h
      · next same =>
        obtain ⟨rfl, rfl⟩ := same
        simp only [Option.some.injEq] at h
        subst h
        simp only [bits]
        rw [← List.map_append, List.range'_append_1]
      · simp at h

theorem flatMap_bits_prepend (c : Chunk) (chunks : List Chunk) :
    (prepend c chunks).flatMap bits = c.bits ++ chunks.flatMap bits := by
  cases chunks with
  | nil =>
    simp only [prepend]
    split
    · next hc => simp [bits_eq_nil_of_width_eq_zero hc]
    · simp
  | cons d rest =>
    simp only [prepend]
    split
    · next hc => simp [bits_eq_nil_of_width_eq_zero hc]
    · split
      · next joint hj => simp [bits_of_join? hj]
      · simp

/-- Joining changes no bit. -/
theorem flatMap_bits_merged (chunks : List Chunk) :
    (merged chunks).flatMap bits = chunks.flatMap bits := by
  induction chunks with
  | nil => rfl
  | cons c rest ih =>
    have step : merged (c :: rest) = prepend c (merged rest) := rfl
    rw [step, flatMap_bits_prepend, ih, List.flatMap_cons]

end Chunk

namespace Signal

/-- The bits of a signal, the least significant first. -/
def bits (s : Signal) : List Bit := s.chunks.flatMap Chunk.bits

/-- The signal of a row of chunks has the bits of the row. -/
theorem bits_ofChunks (chunks : List Chunk) :
    (ofChunks chunks).bits = chunks.flatMap Chunk.bits :=
  Chunk.flatMap_bits_merged chunks

theorem length_bits (s : Signal) : s.bits.length = s.size := by
  unfold bits size
  rw [List.length_flatMap, List.sum_eq_foldr]
  exact congrArg (List.foldr _ _) (List.map_congr_left fun c _ => Chunk.length_bits c)

/-- A wire taken whole has its bits from the first to the last. -/
theorem bits_ofWire (wire : Wire) :
    (ofWire wire).bits = (List.range wire.width).map (Bit.ofWire wire.name) := by
  unfold ofWire
  rw [bits_ofChunks, List.flatMap_singleton, List.range_eq_range']
  rfl

example : (ofInt 5 4).bits = [.const '1', .const '0', .const '1', .const '0'] := by decide

end Signal

end NearestMux
