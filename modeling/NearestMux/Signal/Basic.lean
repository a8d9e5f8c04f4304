import NearestMux.Signal.Chunk

/-!
# Signals — what a port is bound to

A signal is a row of chunks, the least significant first, in which nothing is left to join. Every
signal is made from some row of chunks by joining (`ofChunks`), so there is no second form of the
same signal for the rest of the library to meet.

Two signals are the same when their chunks have the same keys. That is coarser than equality: the
declared widths and the origins of the wires are not compared.
-/

namespace NearestMux

/-- A row of chunks in which nothing is left to join. -/
structure Signal where
  /-- The chunks, the least significant first. -/
  chunks : List Chunk
  /-- Nothing is left to join or to drop. -/
  merged : Chunk.IsMerged chunks

namespace Signal

/-- The signal of a row of chunks. -/
def ofChunks (chunks : List Chunk) : Signal := ⟨Chunk.merged chunks, Chunk.isMerged_merged chunks⟩

/-- The signal without bits. -/
def empty : Signal := ⟨[], trivial⟩

instance : Inhabited Signal := ⟨empty⟩

/-- All of a wire. -/
def ofWire (wire : Wire) : Signal := ofChunks [Chunk.ofWire wire]

/-- The low bits of an integer in two's complement, as a constant; a negative count of bits is
none. -/
def ofInt (value : Int) (width : Int) : Signal :=
  ofChunks [.const ((List.range width.toNat).map fun (i : Nat) =>
    if (value >>> i) % 2 = 1 then '1' else '0')]

/-- What signals are compared by. -/
def key (s : Signal) : List Chunk.Key := s.chunks.map Chunk.key

/-- Two signals are the same when their chunks have the same keys. -/
def same (s t : Signal) : Bool := s.key == t.key

instance : BEq Signal := ⟨same⟩

/-- The number of bits. -/
def size (s : Signal) : Nat := (s.chunks.map Chunk.width).foldr (· + ·) 0

/-- Whether the signal has no bits. -/
def isEmpty (s : Signal) : Bool := s.chunks.isEmpty

/-- The wires that the signal takes bits from, chunk by chunk. -/
def wires (s : Signal) : List Wire := s.chunks.filterMap Chunk.wire?

/-- The one chunk of a signal that has just one. -/
def chunk? (s : Signal) : Option Chunk :=
  match s.chunks with
  | [c] => some c
  | _ => none

/-- The wire that the signal is, when it is all of one wire and nothing else. -/
def wholeWire? (s : Signal) : Option Wire :=
  match s.chunks with
  | [.slice wire offset width _] => if offset = 0 ∧ width = wire.width then some wire else none
  | _ => none

/-- Whether the signal is all of the wire of a name and nothing else. -/
def isWhole (s : Signal) (wire : String) : Bool := s.wholeWire?.any (·.name == wire)

theorem isWhole_iff (s : Signal) (name : String) :
    s.isWhole name = true ↔ ∃ wire, s.wholeWire? = some wire ∧ wire.name = name := by
  simp [isWhole, Option.any_eq_true]

/-- A signal that is all of a wire is one slice of it. -/
theorem chunks_of_wholeWire? {s : Signal} {wire : Wire} (h : s.wholeWire? = some wire) :
    ∃ offset width inside, s.chunks = [.slice wire offset width inside] := by
  unfold wholeWire? at h
  split at h
  · next wire' offset width inside hc =>
    split at h
    · cases h
      exact ⟨offset, width, inside, hc⟩
    · cases h
  · cases h

theorem isEmpty_of_wholeWire? {s : Signal} {wire : Wire} (h : s.wholeWire? = some wire) :
    s.isEmpty = false := by
  obtain ⟨_, _, _, hc⟩ := chunks_of_wholeWire? h
  rw [isEmpty, hc]
  rfl

theorem wires_of_wholeWire? {s : Signal} {wire : Wire} (h : s.wholeWire? = some wire) :
    s.wires = [wire] := by
  obtain ⟨_, _, _, hc⟩ := chunks_of_wholeWire? h
  rw [wires, hc]
  rfl

end Signal

end NearestMux
