import NearestMux.Signal.Wire
import NearestMux.Text.Numeral

/-!
# Chunks — runs of constant bits, slices of wires

A signal is put together from chunks, the least significant first. A chunk is a row of constant bits
or a slice of a wire, and a slice lies inside its wire: that is a field of the type, so a slice that
reaches beyond the wire cannot be written down.

Neighbouring chunks join where they can: two constants always, two slices when the second goes on in
the same wire where the first ends. `merged` joins all that can be joined and drops the chunks
without bits; `IsMerged` says that nothing is left to join or to drop.

Chunks are compared by their `Key`: the bits of a constant; the name of the wire, the offset and the
width of a slice. The declared width of the wire and its origin are no part of the key.
-/

namespace NearestMux

/-- A row of constant bits or a slice of a wire. -/
inductive Chunk where
  /-- Constant bits, the least significant first. -/
  | const (bits : List Char)
  /-- The bits of a wire from an offset on. -/
  | slice (wire : Wire) (offset width : Nat) (inside : offset + width ≤ wire.width)
deriving DecidableEq

namespace Chunk

/-- What chunks are compared by. -/
inductive Key where
  /-- The bits of a constant. -/
  | const (bits : List Char)
  /-- The wire's name, the offset and the width of a slice. -/
  | slice (name : String) (offset width : Nat)
deriving DecidableEq

/-- The key of a chunk. -/
def key : Chunk → Key
  | .const bits => .const bits
  | .slice wire offset width _ => .slice wire.name offset width

/-- The number of bits of a chunk. -/
def width : Chunk → Nat
  | .const bits => bits.length
  | .slice _ _ width _ => width

/-- The wire that a slice is cut from. -/
def wire? : Chunk → Option Wire
  | .const _ => none
  | .slice wire _ _ _ => some wire

/-- All of a wire. -/
def ofWire (wire : Wire) : Chunk := .slice wire 0 wire.width (by omega)

/-- A slice that does not lie inside its wire. -/
structure OutOfRange where
  /-- The wire that was to be cut. -/
  wire : Wire
  /-- The offset that was asked for. -/
  offset : Int
  /-- The width that was asked for. -/
  width : Int

/-- Whether the numbers that the text of the fault shows can be written. -/
def OutOfRange.isTellable (e : OutOfRange) : Bool :=
  Text.isWritable e.offset && Text.isWritable e.width && Text.isWritable e.wire.width

/-- The text of the fault. -/
def OutOfRange.message (e : OutOfRange) : String :=
  if !e.isTellable then Text.unwritableMessage
  else "chunk [" ++ Text.intText e.offset ++ "+:" ++ Text.intText e.width ++
    "] out of range for wire " ++ e.wire.name ++ " (width " ++ Text.natText e.wire.width ++ ")"

/-- Cuts a slice. Without a width it reaches to the end of the wire. -/
def cut (wire : Wire) (offset : Int) (width : Option Int) : Except OutOfRange Chunk :=
  let count := width.getD ((wire.width : Int) - offset)
  if h : 0 ≤ offset ∧ 0 ≤ count ∧ offset + count ≤ (wire.width : Int) then
    .ok (.slice wire offset.toNat count.toNat (by omega))
  else .error ⟨wire, offset, count⟩

/-- The one chunk that two neighbours make when they can be joined. -/
def join? : Chunk → Chunk → Option Chunk
  | .const low, .const high => some (.const (low ++ high))
  | .slice wire offset width _, .slice wire' offset' width' inside' =>
    if h : wire = wire' ∧ offset + width = offset' then
      some (.slice wire offset (width + width') (by obtain ⟨rfl, rfl⟩ := h; omega))
    else none
  | _, _ => none

/-- Puts a chunk in front of joined chunks: it is dropped when it has no bits, and joined with its
neighbour when it can be. -/
def prepend (c : Chunk) : List Chunk → List Chunk
  | [] => if c.width = 0 then [] else [c]
  | d :: rest =>
    if c.width = 0 then d :: rest
    else match c.join? d with
      | some joint => joint :: rest
      | none => c :: d :: rest

/-- Joins all chunks that can be joined and drops those without bits. -/
def merged (chunks : List Chunk) : List Chunk := chunks.foldr prepend []

/-- Nothing is left to join or to drop: every chunk has bits, and no two neighbours can be joined.
-/
def IsMerged : List Chunk → Prop
  | [] => True
  | [c] => c.width ≠ 0
  | c :: d :: rest => c.width ≠ 0 ∧ c.join? d = none ∧ IsMerged (d :: rest)

theorem IsMerged.tail {c : Chunk} {rest : List Chunk} (h : IsMerged (c :: rest)) :
    IsMerged rest := by
  cases rest with
  | nil => trivial
  | cons d rest => exact h.2.2

theorem IsMerged.head {c : Chunk} {rest : List Chunk} (h : IsMerged (c :: rest)) :
    c.width ≠ 0 := by
  cases rest with
  | nil => exact h
  | cons d rest => exact h.1

/-- A joint has the bits of both its parts. -/
theorem width_join {c d joint : Chunk} (h : c.join? d = some joint) :
    joint.width = c.width + d.width := by
  cases c with
  | const low =>
    cases d with
    | const high =>
      simp only [join?, Option.some.injEq] at h
      subst h
      simp [width]
    | slice wire offset width inside => simp [join?] at h
  | slice wire offset width inside =>
    cases d with
    | const high => simp [join?] at h
    | slice wire' offset' width' inside' =>
      simp only [join?] at h
      split at h
      · simp only [Option.some.injEq] at h
        subst h
        rfl
      · simp at h

/-- What comes behind a joint meets the end of its second part. -/
theorem join?_of_join? {c d joint : Chunk} (h : c.join? d = some joint) (e : Chunk)
    (hd : d.join? e = none) : joint.join? e = none := by
  cases c with
  | const low =>
    cases d with
    | const high =>
      simp only [join?, Option.some.injEq] at h
      subst h
      cases e with
      | const bits => simp [join?] at hd
      | slice wire offset width inside => rfl
    | slice wire offset width inside => simp [join?] at h
  | slice wire offset width inside =>
    cases d with
    | const high => simp [join?] at h
    | slice wire' offset' width' inside' =>
      simp only [join?] at h
      split at h
      · next same =>
        obtain ⟨rfl, rfl⟩ := same
        simp only [Option.some.injEq] at h
        subst h
        cases e with
        | const bits => rfl
        | slice wire'' offset'' width'' inside'' =>
          simp only [join?] at hd ⊢
          split at hd
          · simp at hd
          · next differ =>
            rw [dif_neg]
            intro meets
            exact differ ⟨meets.1, by omega⟩
      · simp at h

theorem isMerged_prepend (c : Chunk) {chunks : List Chunk} (h : IsMerged chunks) :
    IsMerged (prepend c chunks) := by
  cases chunks with
  | nil =>
    simp only [prepend]
    split
    · trivial
    · next hc => exact hc
  | cons d rest =>
    simp only [prepend]
    split
    · exact h
    · next hc =>
      split
      · next joint hj =>
        have hw := width_join hj
        cases rest with
        | nil => exact (by omega : joint.width ≠ 0)
        | cons e rest => exact ⟨by omega, join?_of_join? hj e h.2.1, h.2.2⟩
      · next hj => exact ⟨hc, hj, h⟩

theorem isMerged_merged (chunks : List Chunk) : IsMerged (merged chunks) := by
  induction chunks with
  | nil => trivial
  | cons c rest ih => exact isMerged_prepend c ih

end Chunk

end NearestMux
