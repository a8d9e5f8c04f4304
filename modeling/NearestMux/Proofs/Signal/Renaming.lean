import Mathlib.Logic.Equiv.Basic
import NearestMux.Identifier
import NearestMux.Signal.Basic

/-!
# Renaming wires — signals under other names

A renaming gives every name another one. It keeps different names apart, and it keeps the mark of a
name: what a person named stays a person's, what a tool made up stays made up. The bits of a signal
do not move. Its slices are cut from the same places of wires that are only called differently.

What is asked of a signal can be asked under the new names, with the same answer: which wire it is
all of, whether it has bits, whether another signal is the same (`Signal.key_rename_eq_iff`). Even
the joining of chunks goes through, because wires that differ still do when they are renamed.

Names without a mark are names of nothing in a design. A renaming may do with them what it likes, as
long as they stay apart from all others.
-/

namespace NearestMux

/-- A renaming of wires: different names stay different, and a marked name keeps its mark. -/
structure Renaming where
  /-- The new name. -/
  toFun : String → String
  injective : Function.Injective toFun
  keepsMark : ∀ {name}, Identifier.IsMarked name → (toFun name).toList.head? = name.toList.head?

namespace Renaming

instance : CoeFun Renaming fun _ => String → String := ⟨toFun⟩

/-- Every name stays as it is. -/
def refl : Renaming := ⟨id, Function.injective_id, fun _ => rfl⟩

/-- Two names of one kind change places. -/
def swap (first second : String) (alike : first.toList.head? = second.toList.head?) :
    Renaming where
  toFun := Equiv.swap first second
  injective := (Equiv.swap first second).injective
  keepsMark := by
    intro name _
    rw [Equiv.swap_apply_def]
    split
    · next same => rw [same, alike]
    · split
      · next same => rw [same, alike]
      · rfl

/-- What holds of both names or of neither holds of a name just when it holds of the new one. -/
theorem swap_iff {first second : String} (alike : first.toList.head? = second.toList.head?)
    {P : String → Prop} (same : P first ↔ P second) (name : String) :
    P ((swap first second alike).toFun name) ↔ P name := by
  change P (Equiv.swap first second name) ↔ P name
  rw [Equiv.swap_apply_def]
  split
  · next isFirst => rw [isFirst, same]
  · split
    · next isSecond => rw [isSecond, same]
    · rfl

variable (r : Renaming) {name : String}

@[simp] theorem refl_apply (name : String) : refl name = name := rfl

/-- Two names are compared by their new names. -/
theorem beq_eq (first second : String) : (r first == r second) = (first == second) := by
  rw [Bool.eq_iff_iff, beq_iff_eq, beq_iff_eq]
  exact r.injective.eq_iff

/-- A renaming takes marked names to marked names. -/
theorem isMarked (marked : Identifier.IsMarked name) : Identifier.IsMarked (r name) := by
  unfold Identifier.IsMarked
  rw [r.keepsMark marked]
  exact marked

/-- Marking a marked name and renaming it can be done in either order. -/
theorem escape_eq (marked : Identifier.IsMarked name) :
    Identifier.escape (r name) = r (Identifier.escape name) := by
  rw [Identifier.escape_of_isMarked (r.isMarked marked), Identifier.escape_of_isMarked marked]

/-- A renaming takes public names to public ones and hidden names to hidden ones. -/
theorem isPublic_eq (marked : Identifier.IsMarked name) :
    Identifier.isPublic (r name) = Identifier.isPublic name := by
  unfold Identifier.isPublic
  rw [r.keepsMark marked]

end Renaming

variable {r : Renaming} {name : String}

/-! ## Wires and chunks -/

/-- The wire under its new name. -/
def Wire.rename (r : Renaming) (w : Wire) : Wire := { w with name := r w.name }

@[simp] theorem Wire.name_rename (w : Wire) : (w.rename r).name = r w.name := rfl

/-- No renaming makes one wire of two. -/
theorem Wire.rename_eq_iff {w w' : Wire} : w.rename r = w'.rename r ↔ w = w' := by
  cases w
  cases w'
  simp only [rename, Wire.mk.injEq, r.injective.eq_iff]

namespace Chunk

variable {c d : Chunk}

/-- The chunk cut from the renamed wire. -/
def rename (r : Renaming) : Chunk → Chunk
  | .const bits => .const bits
  | .slice wire offset width inside => .slice (wire.rename r) offset width inside

@[simp] theorem width_rename (c : Chunk) : (c.rename r).width = c.width := by
  cases c <;> rfl

theorem wire?_rename (c : Chunk) : (c.rename r).wire? = c.wire?.map (Wire.rename r) := by
  cases c <;> rfl

/-- Renamed chunks have one key exactly when the chunks have. -/
theorem key_rename_eq_iff : (c.rename r).key = (d.rename r).key ↔ c.key = d.key := by
  cases c <;> cases d <;>
    simp only [rename, key, Wire.rename, Key.slice.injEq, r.injective.eq_iff, reduceCtorEq]

/-- Renamed chunks join just when the chunks do, and make the renamed joint. -/
theorem join?_rename (c d : Chunk) :
    (c.rename r).join? (d.rename r) = (c.join? d).map (Chunk.rename r) := by
  cases c with
  | const low => cases d <;> rfl
  | slice wire offset width inside =>
    cases d with
    | const high => rfl
    | slice wire' offset' width' inside' =>
      simp only [rename, join?, Wire.rename_eq_iff]
      by_cases meets : wire = wire' ∧ offset + width = offset'
      · rw [dif_pos meets, dif_pos meets]
        rfl
      · rw [dif_neg meets, dif_neg meets]
        rfl

theorem prepend_rename (c : Chunk) (chunks : List Chunk) :
    prepend (c.rename r) (chunks.map (rename r)) = (prepend c chunks).map (rename r) := by
  cases chunks with
  | nil =>
    simp only [prepend, List.map_nil, width_rename]
    split <;> rfl
  | cons d rest =>
    simp only [prepend, List.map_cons, width_rename, join?_rename]
    split
    · rfl
    · cases c.join? d <;> rfl

/-- Merging chunks and renaming them can be done in either order. -/
theorem merged_rename (chunks : List Chunk) :
    merged (chunks.map (rename r)) = (merged chunks).map (rename r) := by
  induction chunks with
  | nil => rfl
  | cons c rest ih =>
    change prepend (c.rename r) (merged (rest.map (rename r))) = _
    rw [ih, prepend_rename]
    rfl

/-- Renamed chunks of a merged row have nothing left to merge. -/
theorem IsMerged.rename {chunks : List Chunk} (h : IsMerged chunks) :
    IsMerged (chunks.map (rename r)) := by
  induction chunks with
  | nil => trivial
  | cons c rest ih =>
    have width : (c.rename r).width ≠ 0 := by
      rw [width_rename]
      exact h.head
    cases rest with
    | nil => exact width
    | cons d rest =>
      refine ⟨width, ?_, ih h.tail⟩
      rw [join?_rename, h.2.1]
      rfl

end Chunk

/-! ## Signals -/

namespace Signal

variable {s t : Signal}

/-- The signal under the new names of its wires. -/
def rename (r : Renaming) (s : Signal) : Signal := ⟨s.chunks.map (Chunk.rename r), s.merged.rename⟩

theorem ofWire_rename (w : Wire) : (ofWire w).rename r = ofWire (w.rename r) := by
  have merged : Chunk.merged [.ofWire (w.rename r)] =
      (Chunk.merged [.ofWire w]).map (Chunk.rename r) :=
    Chunk.merged_rename [.ofWire w]
  unfold rename ofWire ofChunks
  simp only [merged]

@[simp] theorem isEmpty_rename (s : Signal) : (s.rename r).isEmpty = s.isEmpty :=
  List.isEmpty_map

/-- A renamed signal is over the renamed wires. -/
theorem wires_rename (s : Signal) : (s.rename r).wires = s.wires.map (Wire.rename r) := by
  simp only [wires, rename, List.filterMap_map, List.map_filterMap, Function.comp_def,
    Chunk.wire?_rename]

/-- A signal is all of a wire just when it is all of the renamed one under the new names. -/
theorem wholeWire?_rename (s : Signal) :
    (s.rename r).wholeWire? = s.wholeWire?.map (Wire.rename r) := by
  obtain ⟨chunks, merged⟩ := s
  rcases chunks with _ | ⟨c, _ | ⟨d, rest⟩⟩
  · rfl
  · cases c with
    | const bits => rfl
    | slice wire offset width inside =>
      simp only [wholeWire?, rename, List.map_cons, List.map_nil, Chunk.rename, Wire.rename]
      split <;> rfl
  · cases c <;> rfl

/-- A renamed signal is the whole of a renamed wire exactly when the signal is the whole of the
wire. -/
theorem isWhole_rename (s : Signal) (name : String) :
    (s.rename r).isWhole (r name) = s.isWhole name := by
  unfold isWhole
  rw [wholeWire?_rename, Option.any_map]
  congr 1
  funext wire
  exact r.beq_eq wire.name name

/-- Signals are the same just when they are under the new names. -/
theorem key_rename_eq_iff : (s.rename r).key = (t.rename r).key ↔ s.key = t.key := by
  unfold key rename
  dsimp only
  rw [List.map_map, List.map_map]
  generalize s.chunks = first, t.chunks = second
  induction first generalizing second with
  | nil => cases second <;> simp
  | cons c rest ih =>
    cases second with
    | nil => simp
    | cons d others =>
      simp only [List.map_cons, List.cons.injEq, ih others, Function.comp_apply,
        Chunk.key_rename_eq_iff]

/-- The wires that a signal takes bits from stand under marked names. -/
def Marked (s : Signal) : Prop := ∀ w ∈ s.wires, Identifier.IsMarked w.name

theorem Marked.of_wholeWire? {w : Wire} (marked : s.Marked) (whole : s.wholeWire? = some w) :
    Identifier.IsMarked w.name := by
  refine marked w ?_
  rw [wires_of_wholeWire? whole]
  exact List.mem_singleton_self w

end Signal

end NearestMux
