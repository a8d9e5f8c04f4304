import Mathlib.Data.List.SplitBy
import Mathlib.Data.Set.Function
import NearestMux.Proofs.Signal.Joining
import NearestMux.Signal.Bits
import NearestMux.Signal.Text

/-!
# The normal form of a signal — one row of chunks for one row of bits

Joining leaves every bit where it was (`Signal.bits_ofChunks`). Here is the other half: what is left
when nothing can be joined any more does not depend on the chunks that the bits came in. A row of
bits falls into runs, and a run ends where the next bit does not go on with it: constants go on with
constants, and a bit of a wire with the next bit of that wire (`Bit.goesOn`). The chunks of a signal
are the runs of its bits (`map_bits_eq_splitBy`).

That needs wires which are told apart by their names, as the bits and the keys tell them apart. Two
wires of one name break it: their slices are kept apart, and no bit shows where.
-/

namespace NearestMux

/-- The bits of a wire, from the first to the last. -/
def Wire.bits (w : Wire) : List Bit := (List.range w.width).map (Bit.ofWire w.name)

/-- Whether a bit goes on with the run that another one ends. -/
def Bit.goesOn : Bit → Bit → Bool
  | .const _, .const _ => true
  | .ofWire name index, .ofWire name' index' => name == name' && index' == index + 1
  | _, _ => false

namespace Chunk

variable {stock : Set Wire} {c d joint : Chunk} {chunks others : List Chunk}

/-! ## Chunks as runs of bits -/

/-- The slices of a row are cut from the wires of a stock. -/
def Over (stock : Set Wire) (chunks : List Chunk) : Prop :=
  ∀ c ∈ chunks, ∀ w, c.wire? = some w → w ∈ stock

theorem wire?_of_join? (h : c.join? d = some joint) : joint.wire? = c.wire? := by
  cases c with
  | const low =>
    cases d with
    | const high => cases h; rfl
    | slice => cases h
  | slice wire offset width inside =>
    cases d with
    | const high => cases h
    | slice wire' offset' width' inside' =>
      simp only [join?] at h
      split at h
      · cases h
        rfl
      · cases h

theorem Over.merged (stocked : Over stock chunks) : Over stock (merged chunks) := by
  induction chunks with
  | nil => exact stocked
  | cons c rest ih =>
    obtain ⟨first, others⟩ := List.forall_mem_cons.mp stocked
    have joined := ih others
    rw [merged_cons]
    by_cases hc : c.width = 0
    · rwa [prepend_of_width_eq_zero hc]
    · generalize Chunk.merged rest = row at joined ⊢
      cases row with
      | nil =>
        rw [prepend, if_neg hc]
        exact List.forall_mem_cons.mpr ⟨first, joined⟩
      | cons d row =>
        cases meets : c.join? d with
        | none =>
          rw [prepend_of_apart hc meets]
          exact List.forall_mem_cons.mpr ⟨first, joined⟩
        | some joint =>
          rw [prepend_of_join? hc meets]
          refine List.forall_mem_cons.mpr ⟨?_, (List.forall_mem_cons.mp joined).2⟩
          rwa [wire?_of_join? meets]

/-- A chunk is one run of bits. -/
theorem isChain_bits (c : Chunk) : c.bits.IsChain fun x y => x.goesOn y := by
  cases c with
  | const values =>
    refine (List.isChain_map _).mpr (List.Pairwise.isChain ?_)
    exact List.pairwise_of_forall fun _ _ => rfl
  | slice wire offset width inside =>
    refine (List.isChain_map _).mpr ((List.isChain_range' offset width 1).imp ?_)
    rintro index _ rfl
    simp [Bit.goesOn]

theorem head_bits_slice {wire : Wire} {offset width : Nat} {inside : offset + width ≤ wire.width}
    (h : (slice wire offset width inside).bits ≠ []) :
    (slice wire offset width inside).bits.head h = .ofWire wire.name offset := by
  simp [bits, List.head_map]

theorem getLast_bits_slice {wire : Wire} {offset width : Nat}
    {inside : offset + width ≤ wire.width} (h : (slice wire offset width inside).bits ≠ []) :
    (slice wire offset width inside).bits.getLast h = .ofWire wire.name (offset + width - 1) := by
  have positive : 0 < width := by
    rw [← List.length_pos_iff, length_bits] at h
    exact h
  simp only [bits, List.getLast_map]
  rw [List.getLast_eq_getElem, List.getElem_range', List.length_range', Nat.one_mul,
    Nat.add_sub_assoc positive]

/-- Where two chunks cannot be joined, a run ends. -/
theorem goesOn_eq_false_of_apart (distinct : Set.InjOn Wire.name stock)
    (hc : ∀ w, c.wire? = some w → w ∈ stock) (hd : ∀ w, d.wire? = some w → w ∈ stock)
    (apart : c.join? d = none) (hcb : c.bits ≠ []) (hdb : d.bits ≠ []) :
    (c.bits.getLast hcb).goesOn (d.bits.head hdb) = false := by
  cases c with
  | const low =>
    cases d with
    | const high => cases apart
    | slice wire offset width inside =>
      rw [head_bits_slice]
      simp only [bits, List.getLast_map]
      rfl
  | slice wire offset width inside =>
    cases d with
    | const high =>
      rw [getLast_bits_slice]
      simp only [bits, List.head_map]
      rfl
    | slice wire' offset' width' inside' =>
      rw [getLast_bits_slice, head_bits_slice, ← Bool.not_eq_true]
      intro next
      simp only [Bit.goesOn, Bool.and_eq_true, beq_iff_eq] at next
      have same : wire = wire' := distinct (hc wire rfl) (hd wire' rfl) next.1
      have positive : 0 < width := by
        rw [← List.length_pos_iff, length_bits] at hcb
        exact hcb
      simp only [join?, dite_eq_right_iff, reduceCtorEq, imp_false] at apart
      exact apart ⟨same, by omega⟩

/-- **The chunks are the runs.** Where nothing is left to join, the chunks split their bits into
runs that no bit goes on with. -/
theorem map_bits_eq_splitBy (distinct : Set.InjOn Wire.name stock) (stocked : Over stock chunks)
    (h : IsMerged chunks) : chunks.map bits = (chunks.flatMap bits).splitBy Bit.goesOn := by
  obtain ⟨full, apart⟩ := (isMerged_iff chunks).mp h
  have nonempty : ∀ c ∈ chunks, c.bits ≠ [] := by
    intro c hc
    rw [← List.length_pos_iff, length_bits]
    exact Nat.pos_of_ne_zero (full c hc)
  rw [List.flatMap_def]
  refine (List.splitBy_flatten ?_ ?_ ?_).symm
  · intro none
    obtain ⟨c, hc, empty⟩ := List.mem_map.mp none
    exact nonempty c hc empty
  · intro run hrun
    obtain ⟨c, -, rfl⟩ := List.mem_map.mp hrun
    exact c.isChain_bits
  · refine (List.isChain_map _).mpr (apart.imp_of_mem_imp ?_)
    intro c d hc hd apart
    exact ⟨nonempty c hc, nonempty d hd,
      goesOn_eq_false_of_apart distinct (stocked c hc) (stocked d hd) apart _ _⟩

/-- Chunks with bits are told apart by their bits, as they are by their keys. -/
theorem eq_of_bits_eq (distinct : Set.InjOn Wire.name stock)
    (hc : ∀ w, c.wire? = some w → w ∈ stock) (hd : ∀ w, d.wire? = some w → w ∈ stock)
    (full : c.width ≠ 0) (same : c.bits = d.bits) : c = d := by
  have hcb : c.bits ≠ [] := by
    rw [← List.length_pos_iff, length_bits]
    exact Nat.pos_of_ne_zero full
  have count : c.width = d.width := by
    rw [← length_bits, ← length_bits, same]
  have first : c.bits.head hcb = d.bits.head (same ▸ hcb) := by
    simp only [same]
  cases c with
  | const low =>
    cases d with
    | const high =>
      have inj : Function.Injective Bit.const := fun _ _ h => Bit.const.inj h
      rw [List.map_injective_iff.mpr inj same]
    | slice wire offset width inside =>
      rw [head_bits_slice] at first
      simp only [bits, List.head_map] at first
      cases first
  | slice wire offset width inside =>
    cases d with
    | const high =>
      rw [head_bits_slice] at first
      simp only [bits, List.head_map] at first
      cases first
    | slice wire' offset' width' inside' =>
      rw [head_bits_slice, head_bits_slice] at first
      obtain ⟨name, rfl⟩ := Bit.ofWire.inj first
      obtain rfl : wire = wire' := distinct (hc wire rfl) (hd wire' rfl) name
      obtain rfl : width = width' := count
      rfl

/-- What cannot be joined any further is told apart by its bits. -/
theorem eq_of_flatMap_bits_eq (distinct : Set.InjOn Wire.name stock) (stocked : Over stock chunks)
    (stocked' : Over stock others) (h : IsMerged chunks) (h' : IsMerged others)
    (same : chunks.flatMap bits = others.flatMap bits) : chunks = others := by
  have runs : chunks.map bits = others.map bits := by
    rw [map_bits_eq_splitBy distinct stocked h, map_bits_eq_splitBy distinct stocked' h', same]
  clear same h'
  induction chunks generalizing others with
  | nil => exact (List.map_eq_nil_iff.mp runs.symm).symm
  | cons c rest ih =>
    obtain ⟨d, rest', rfl, first, tail⟩ := List.map_eq_cons_iff.mp runs.symm
    obtain ⟨hc, stockedRest⟩ := List.forall_mem_cons.mp stocked
    obtain ⟨hd, stockedRest'⟩ := List.forall_mem_cons.mp stocked'
    rw [eq_of_bits_eq distinct hc hd h.head first.symm,
      ih stockedRest stockedRest' h.tail tail.symm]

/-- The bits that a key stands for. -/
def Key.bits : Key → List Bit
  | .const values => values.map Bit.const
  | .slice name offset width => (List.range' offset width).map (Bit.ofWire name)

theorem bits_key (c : Chunk) : c.key.bits = c.bits := by
  cases c <;> rfl

theorem flatMap_bits_map_key (chunks : List Chunk) :
    (chunks.map key).flatMap Key.bits = chunks.flatMap bits := by
  simp only [List.flatMap_map, bits_key]

end Chunk

namespace Signal

variable {stock : Set Wire} {s t : Signal} {w : Wire} {chunks others : List Chunk}

theorem eq_of_chunks_eq (h : s.chunks = t.chunks) : s = t := by
  cases s
  cases t
  cases h
  rfl

/-- Signals that are the same have the same bits. -/
theorem bits_eq_of_beq (h : (s == t) = true) : s.bits = t.bits := by
  have keys : s.chunks.map Chunk.key = t.chunks.map Chunk.key := eq_of_beq h
  rw [bits, bits, ← Chunk.flatMap_bits_map_key, keys, Chunk.flatMap_bits_map_key]

/-- Over wires that are told apart by their names, a signal is what its bits are. -/
theorem ofChunks_eq_iff (distinct : Set.InjOn Wire.name stock) (stocked : Chunk.Over stock chunks)
    (stocked' : Chunk.Over stock others) :
    ofChunks chunks = ofChunks others ↔
      chunks.flatMap Chunk.bits = others.flatMap Chunk.bits := by
  constructor
  · intro same
    rw [← bits_ofChunks, same, bits_ofChunks]
  · intro same
    apply eq_of_chunks_eq
    refine Chunk.eq_of_flatMap_bits_eq distinct stocked.merged stocked'.merged
      (Chunk.isMerged_merged _) (Chunk.isMerged_merged _) ?_
    show (ofChunks chunks).bits = (ofChunks others).bits
    rw [bits_ofChunks, bits_ofChunks, same]

theorem wholeWire?_eq_some_iff (s : Signal) (w : Wire) :
    s.wholeWire? = some w ↔ s.chunks = [Chunk.ofWire w] := by
  constructor
  · intro whole
    unfold wholeWire? at whole
    split at whole
    · next wire offset width inside hc =>
      split at whole
      · next all =>
        obtain ⟨rfl, rfl⟩ := all
        cases whole
        exact hc
      · cases whole
    · cases whole
  · intro hc
    rw [wholeWire?, hc, Chunk.ofWire]
    exact if_pos ⟨rfl, rfl⟩

theorem chunks_ofWire (positive : 0 < w.width) : (ofWire w).chunks = [Chunk.ofWire w] := by
  have alone : Chunk.IsMerged [Chunk.ofWire w] := Nat.ne_of_gt positive
  exact Chunk.merged_eq_self alone

theorem flatMap_bits_ofWire (w : Wire) : [Chunk.ofWire w].flatMap Chunk.bits = w.bits := by
  rw [List.flatMap_singleton, Wire.bits, List.range_eq_range']
  rfl

theorem over_ofWire (hw : w ∈ stock) : Chunk.Over stock [Chunk.ofWire w] := by
  intro c hc v hv
  rw [List.mem_singleton.mp hc] at hv
  cases hv
  exact hw

/-- A signal is all of a wire just when it has bits, and they are those of the wire. -/
theorem wholeWire?_ofChunks_iff (distinct : Set.InjOn Wire.name stock)
    (stocked : Chunk.Over stock chunks) : (ofChunks chunks).wholeWire? = some w ↔
      w ∈ stock ∧ 0 < w.width ∧ chunks.flatMap Chunk.bits = w.bits := by
  rw [wholeWire?_eq_some_iff]
  constructor
  · intro whole
    have cut : Chunk.Over stock (ofChunks chunks).chunks := stocked.merged
    have merged := (ofChunks chunks).merged
    have same : (ofChunks chunks).bits = [Chunk.ofWire w].flatMap Chunk.bits := by
      rw [bits, whole]
    rw [whole] at cut merged
    rw [bits_ofChunks, flatMap_bits_ofWire] at same
    exact ⟨cut _ List.mem_cons_self w rfl, Nat.pos_of_ne_zero merged, same⟩
  · rintro ⟨hw, positive, same⟩
    rw [← flatMap_bits_ofWire, ← ofChunks_eq_iff distinct stocked (over_ofWire hw)] at same
    rw [same]
    exact chunks_ofWire positive

/-- **Normal form.** Over wires that are told apart by their names, putting a signal together is
never refused, and the signal has the bits of its chunks and as many of them. Two signals are the
same just when their bits are. A signal is all of one wire just when its bits are the bits of a wire
that has some, and then that wire is what it is taken for. -/
theorem ofChunks_normalForm (distinct : Set.InjOn Wire.name stock)
    (stocked : Chunk.Over stock chunks) (stocked' : Chunk.Over stock others) :
    Chunk.assembled chunks = .ok (ofChunks chunks).chunks ∧
    (ofChunks chunks).bits = chunks.flatMap Chunk.bits ∧
    (ofChunks chunks).size = (chunks.flatMap Chunk.bits).length ∧
    ((ofChunks chunks == ofChunks others) = true ↔
      chunks.flatMap Chunk.bits = others.flatMap Chunk.bits) ∧
    ((ofChunks chunks).wholeWire?.isSome = true ↔
      ∃ w ∈ stock, 0 < w.width ∧ chunks.flatMap Chunk.bits = w.bits) ∧
    ∀ w ∈ stock, 0 < w.width → chunks.flatMap Chunk.bits = w.bits →
      (ofChunks chunks).asWire = .ok w := by
  have bits := bits_ofChunks chunks
  refine ⟨Chunk.assembled_eq chunks, bits, ?_, ⟨fun same => ?_, fun same => ?_⟩, ?_, ?_⟩
  · rw [← bits, length_bits]
  · rw [← bits, bits_eq_of_beq same, bits_ofChunks]
  · rw [(ofChunks_eq_iff distinct stocked stocked').mpr same]
    exact beq_self_eq_true (ofChunks others).key
  · simp only [Option.isSome_iff_exists, wholeWire?_ofChunks_iff distinct stocked]
  · intro w hw positive same
    have whole := (wholeWire?_ofChunks_iff distinct stocked).mpr ⟨hw, positive, same⟩
    rw [asWire, whole]

/-- Four bits of a bus in two slices, with chunks between them that have no bits. -/
def cutBus : List Chunk := [
  .slice ⟨"\\bus", 4, .declared "\\m"⟩ 0 2 (by decide),
  .const [],
  .slice ⟨"\\flag", 1, .declared "\\m"⟩ 1 0 (by decide),
  .slice ⟨"\\bus", 4, .declared "\\m"⟩ 2 2 (by decide)]

theorem ofChunks_normalForm_cutBus :
    let bus : Wire := ⟨"\\bus", 4, .declared "\\m"⟩
    let flag : Wire := ⟨"\\flag", 1, .declared "\\m"⟩
    Set.InjOn Wire.name {bus, flag} ∧ Chunk.Over {bus, flag} cutBus ∧
      Chunk.Over {bus, flag} [Chunk.ofWire bus] ∧
      (ofChunks cutBus == ofChunks [Chunk.ofWire bus]) = true ∧
      (ofChunks cutBus).asWire = .ok bus := by
  intro bus flag
  have distinct : Set.InjOn Wire.name {bus, flag} := by
    rintro v (rfl | rfl) w (rfl | rfl) same
    · rfl
    · exact absurd same (by decide)
    · exact absurd same (by decide)
    · rfl
  have stocked : Chunk.Over {bus, flag} cutBus := by
    intro c hc w hw
    simp only [cutBus, List.mem_cons, List.not_mem_nil, or_false] at hc
    rcases hc with rfl | rfl | rfl | rfl <;> cases hw
    · exact Or.inl rfl
    · exact Or.inr rfl
    · exact Or.inl rfl
  have stockedBus : Chunk.Over {bus, flag} [Chunk.ofWire bus] := over_ofWire (Or.inl rfl)
  have form := ofChunks_normalForm distinct stocked stockedBus
  exact ⟨distinct, stocked, stockedBus, form.2.2.2.1.mpr (by decide),
    form.2.2.2.2.2 bus (Or.inl rfl) (by decide) (by decide)⟩

/-- Slices of two wires of one name stay apart, although the bits go on. -/
example : (ofChunks [.slice ⟨"\\a", 2, .detached 0⟩ 0 1 (by decide),
      .slice ⟨"\\a", 2, .detached 1⟩ 1 1 (by decide)] ==
    ofWire ⟨"\\a", 2, .detached 0⟩) = false := by decide

end Signal

end NearestMux
