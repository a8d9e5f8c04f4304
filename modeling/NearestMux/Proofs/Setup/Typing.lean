import NearestMux.Proofs.Netlist.Malformed
import NearestMux.Setup

/-!
# What a configuration is made of

A document is a configuration or it is refused, and which of the two is settled by its shape alone
(`Config.Shape`): the document and its two sections are mappings or blank, and the two lists are
lists, single texts or left out. What a document of that shape says can be read off it entry by
entry (`Config.described`).

The reading can end in a third way. The lists and the token are taken by their spelling, and a fault
shows the part that is out of shape; a number with too many digits cannot be written there, and this
is no fault of a configuration. `Config.Unwritten` says where such a number has to stand. The parts
are read one after the other, so it matters only where nothing before it has ended the reading.
`Config.comesOf_ofValue` says what comes of a document in each case.

The parts of a configuration are to be of certain kinds (`Config.WellTyped`). Three of them cannot
be of another: the patterns, the types and the token are texts whatever the document holds, because
they are taken by their spelling, and there is always a type, because a blank list of types gives
the customary one. The path and the top are handed on as they stand. So a document that is neither
refused nor well typed has something other than a text in one of those two places, or a number that
cannot be written, and `Config.load_wellTyped_iff` says that there is nothing else;
`Config.not_load_wellTyped` shows one.

What is handed on is met again by whoever loads the netlist: there a path that is given and no text
ends the loading, and so does such a top, unless the netlist has gone wrong before.
-/

namespace NearestMux

namespace Value

/-- A mapping, or an empty value of any kind in its place. -/
def IsSection (v : Value) : Prop := v.isTruthy = false ∨ ∃ entries, v = .map entries

/-- A list of any items, a text alone, or the absent value. -/
inductive IsTexts : Value → Prop where
  | null : IsTexts .null
  | text (s : String) : IsTexts (.text s)
  | list (items : List Value) : IsTexts (.list items)

/-- The texts of a list by their spelling; a text alone is one of one item. -/
def texts : Value → List String
  | .text s => [s]
  | .list items => items.map Value.name
  | _ => []

/-- What stands under a key of a mapping; nothing stands under a key of another value. -/
def part (v : Value) (key : String) : Value := entry v.entries key

variable {v : Value}

theorem entries_of_not_truthy (blank : v.isTruthy = false) : v.entries = [] := by
  cases v with
  | map entries =>
    rw [isTruthy, Bool.not_eq_false', List.isEmpty_iff] at blank
    exact blank
  | _ => rfl

theorem texts_ne_nil (given : v.isTruthy = true) (isTexts : v.IsTexts) : v.texts ≠ [] := by
  cases isTexts with
  | null => cases given
  | text s => exact List.cons_ne_nil s []
  | list items =>
    rw [isTruthy, Bool.not_eq_true', List.isEmpty_eq_false_iff] at given
    exact fun none => given (List.map_eq_nil_iff.mp none)

theorem IsSection.blank : (null : Value).IsSection := .inl rfl

/-- Only a mapping has parts. -/
theorem isSection_of_part {key : String} (there : v.part key ≠ .null) : v.IsSection := by
  cases v with
  | map entries => exact .inr ⟨entries, rfl⟩
  | _ => exact absurd rfl there

theorem ne_null_of_not_isWritable (long : v.isWritable = false) : v ≠ .null := by
  rintro rfl
  cases long

/-- A value that cannot be written is given. -/
theorem isTruthy_of_not_isWritable (long : v.isWritable = false) : v.isTruthy = true := by
  cases v with
  | int i =>
    rw [isTruthy, bne_iff_ne]
    rintro rfl
    exact absurd long (by decide)
  | list items => cases items <;> [cases long; rfl]
  | set members => cases members <;> [cases long; rfl]
  | map entries => cases entries <;> [cases long; rfl]
  | pair => rfl
  | _ => cases long

theorem not_blank (given : v.isTruthy = true) : ¬ v.isTruthy = false := by
  rw [given]
  nofun

theorem not_isText (given : v.isTruthy = true) (noText : ∀ s, v = .text s → False) :
    ¬ v.IsText := by
  rintro (_ | s)
  · cases given
  · exact noText s rfl

end Value

/-- What a fault tells of a document: its path, and of a part what stands there, which is out of
shape. -/
def ConfigFault.TellsOf (path : String) (v : Value) : ConfigFault → Prop
  | .malformed _ => False
  | .notMapping p => p = path ∧ ¬ v.IsSection
  | .badSection p key value =>
    p = path ∧ key ∈ ["netlist", "trace"] ∧ value = v.part key ∧ ¬ value.IsSection
  | .badList p key value =>
    p = path ∧ (key = "select" ∧ value = v.part "select" ∨
      key = "trace.mux_types" ∧ value = (v.part "trace").part "mux_types") ∧ ¬ value.IsTexts

namespace Config

variable {path key : String} {v : Value} {entries : List (Value × Value)} {c : Config}

/-- The types that a value lists; a blank value stands for the customary ones. -/
def typesIn (v : Value) : List String := if v.isTruthy then v.texts else MuxRule.customaryTypes

/-- What is taken for the reset token: the customary one where nothing is given. -/
def token (v : Value) : Value :=
  (Value.lookup? (v.part "trace").entries "reset_token").getD (.text MuxRule.customaryToken)

/-- What a document says, entry by entry. -/
def described (v : Value) : Config where
  netlist := (v.part "netlist").part "path"
  top := (v.part "netlist").part "top"
  select := (v.part "select").texts
  resetToken := (token v).name
  muxTypes := typesIn ((v.part "trace").part "mux_types")

/-- The shape of a document that is a configuration. -/
structure Shape (v : Value) : Prop where
  document : v.IsSection
  netlist : (v.part "netlist").IsSection
  trace : (v.part "trace").IsSection
  select : (v.part "select").IsTexts
  muxTypes : ((v.part "trace").part "mux_types").isTruthy = false ∨
    ((v.part "trace").part "mux_types").IsTexts

/-- A number with too many digits has to be written. The cases come in the order of the reading, and
no fault has ended it before. A section is written when it is told of as no mapping; a list and the
token are written in any case. -/
inductive Unwritten (v : Value) : Prop where
  | netlist (misshapen : ¬ (v.part "netlist").IsSection)
      (long : (v.part "netlist").isWritable = false) : Unwritten v
  | trace (netlist : (v.part "netlist").IsSection) (misshapen : ¬ (v.part "trace").IsSection)
      (long : (v.part "trace").isWritable = false) : Unwritten v
  | select (netlist : (v.part "netlist").IsSection) (trace : (v.part "trace").IsSection)
      (long : (v.part "select").isWritable = false) : Unwritten v
  | token (netlist : (v.part "netlist").IsSection) (trace : (v.part "trace").IsSection)
      (select : (v.part "select").IsTexts) (long : (token v).isWritable = false) : Unwritten v
  | muxTypes (netlist : (v.part "netlist").IsSection) (trace : (v.part "trace").IsSection)
      (select : (v.part "select").IsTexts)
      (long : ((v.part "trace").part "mux_types").isWritable = false) : Unwritten v

/-- The parts of a configuration are of the kinds that whoever uses them expects: the path and the
top are texts or left out, and there is a type of multiplexers. Its other parts are texts and lists
of texts by their types. -/
structure WellTyped (c : Config) : Prop where
  netlist : c.netlist.IsText
  top : c.top.IsText
  muxTypes : c.muxTypes ≠ []

/-! ## What each part of a document gives -/

/-- A value that can be written is refused in the words of its fault. -/
theorem refuse_of_isWritable {α : Type} {fault : Value → ConfigFault}
    (writable : v.isWritable = true) :
    (refuse fault v : Except ConfigEnd α) = .error (.refused (fault v)) := by
  rw [refuse, if_pos writable]

/-- A value with too long a number ends the reading before its fault is put into words. -/
theorem refuse_of_not_isWritable {α : Type} {fault : Value → ConfigFault}
    (long : v.isWritable = false) :
    (refuse fault v : Except ConfigEnd α) = .error .numberTooLong := by
  rw [refuse, long]
  rfl

theorem nameOf_of_isWritable (writable : v.isWritable = true) : nameOf v = .ok v.name := by
  rw [nameOf, Value.name?, if_pos writable]

theorem nameOf_of_not_isWritable (long : v.isWritable = false) :
    nameOf v = .error .numberTooLong := by
  rw [nameOf, Value.name?, long]
  rfl

/-- Values that can all be written give their names; others give none. -/
theorem namesOf_eq (values : List Value) : namesOf values =
    if Value.areWritable values then .ok (values.map Value.name) else .error .numberTooLong := by
  induction values with
  | nil => rfl
  | cons first rest ih =>
    rw [namesOf, ih, Value.areWritable]
    cases writable : first.isWritable with
    | true =>
      rw [nameOf_of_isWritable writable]
      cases Value.areWritable rest <;> rfl
    | false =>
      rw [nameOf_of_not_isWritable writable]
      rfl

/-- A section that is a mapping, null or absent is read. -/
theorem sectionOf_of_isSection (isSection : (Value.entry entries key).IsSection) :
    sectionOf path entries key = .ok (Value.entry entries key).entries := by
  unfold sectionOf
  rcases isSection with blank | ⟨fields, isMap⟩
  · simp only [blank, Bool.false_eq_true, ↓reduceIte, Value.entries_of_not_truthy blank]
  · simp only [isMap]
    cases fields <;> rfl

/-- A section that is anything else is refused. -/
theorem sectionOf_of_not_isSection (other : ¬ (Value.entry entries key).IsSection) :
    sectionOf path entries key = refuse (.badSection path key) (Value.entry entries key) := by
  obtain ⟨given, noMap⟩ := not_or.mp other
  rw [Bool.not_eq_false] at given
  unfold sectionOf
  simp only [given, ↓reduceIte]
  split
  · next fields isMap => exact absurd ⟨fields, isMap⟩ noMap
  · rfl

/-- A list that can be written is read as the texts of its members. -/
theorem textList_of_isTexts (isTexts : v.IsTexts) (writable : v.isWritable = true) :
    textList path key v = .ok v.texts := by
  cases isTexts with
  | null => rfl
  | text s => rfl
  | list items => exact (namesOf_eq items).trans (if_pos writable)

/-- What is no list of texts is refused. -/
theorem textList_of_not_isTexts (other : ¬ v.IsTexts) :
    textList path key v = refuse (.badList path key) v := by
  cases v with
  | null => exact absurd .null other
  | text s => exact absurd (.text s) other
  | list items => exact absurd (.list items) other
  | _ => rfl

/-- A list is written out whole, whether as a row of texts or to be told of. -/
theorem textList_of_not_isWritable (long : v.isWritable = false) :
    textList path key v = .error .numberTooLong := by
  by_cases isTexts : v.IsTexts
  · cases isTexts with
    | null => cases long
    | text s => cases long
    | list items => exact (namesOf_eq items).trans (if_neg ((Bool.not_eq_true _).mpr long))
  · rw [textList_of_not_isTexts isTexts, refuse_of_not_isWritable long]

/-- A list that is left out is an empty one, and so is the absent value. -/
theorem textList_lookup? (path key name : String) (entries : List (Value × Value)) :
    textList path key ((Value.lookup? entries name).getD (.list [])) =
      textList path key (Value.entry entries name) := by
  unfold Value.entry
  cases Value.lookup? entries name <;> rfl

theorem muxTypesOf_of_truthy {trace : List (Value × Value)}
    (given : (Value.entry trace "mux_types").isTruthy = true) :
    muxTypesOf path trace =
      textList path "trace.mux_types" (Value.entry trace "mux_types") := by
  unfold muxTypesOf
  simp only [given, ↓reduceIte]

/-- The types of multiplexers are read, and the customary ones stand in where none are given. -/
theorem muxTypesOf_eq_ok {trace : List (Value × Value)}
    (types : (Value.entry trace "mux_types").isTruthy = false ∨
      (Value.entry trace "mux_types").IsTexts)
    (writable : (Value.entry trace "mux_types").isWritable = true) :
    muxTypesOf path trace = .ok (typesIn (Value.entry trace "mux_types")) := by
  unfold muxTypesOf typesIn
  dsimp only
  split
  · next given =>
    exact textList_of_isTexts (types.resolve_left (Value.not_blank given)) writable
  · rfl

/-- There is always a type of multiplexer to look for. -/
theorem typesIn_ne_nil (types : v.isTruthy = false ∨ v.IsTexts) : typesIn v ≠ [] := by
  unfold typesIn
  split
  · next given => exact Value.texts_ne_nil given (types.resolve_left (Value.not_blank given))
  · exact List.cons_ne_nil "$mux" []

/-! ## What a document gives -/

theorem part_of_not_truthy (blank : v.isTruthy = false) (key : String) : v.part key = .null := by
  rw [Value.part, Value.entries_of_not_truthy blank]
  rfl

/-- What has a misshapen section is not blank. -/
theorem isTruthy_of_part {key : String} (misshapen : ¬ (v.part key).IsSection) :
    v.isTruthy = true := by
  rw [← Bool.not_eq_false]
  intro blank
  exact misshapen (part_of_not_truthy blank key ▸ .blank)

/-- Only a document that is a mapping gives a token of its own, and the customary one can be
written. -/
theorem isSection_of_token (long : (token v).isWritable = false) : v.IsSection := by
  have there : v.part "trace" ≠ .null := by
    intro none
    rw [token, none] at long
    cases long
  exact Value.isSection_of_part there

/-- What is read, and in which order, once the document and its sections are in shape. -/
theorem ofValue_of_sections (path : String) (document : v.IsSection)
    (netlist : (v.part "netlist").IsSection) (trace : (v.part "trace").IsSection) :
    ofValue path v = do
      let select ← textList path "select" (v.part "select")
      let resetToken ← nameOf (token v)
      let muxTypes ← muxTypesOf path (v.part "trace").entries
      return {
        netlist := (v.part "netlist").part "path"
        top := (v.part "netlist").part "top"
        select := select
        resetToken := resetToken
        muxTypes := muxTypes } := by
  unfold ofValue
  split
  · next given =>
    obtain ⟨entries, rfl⟩ := document.resolve_left (Value.not_blank given)
    have netlist : (Value.entry entries "netlist").IsSection := netlist
    have trace : (Value.entry entries "trace").IsSection := trace
    simp only [sectionOf_of_isSection netlist, sectionOf_of_isSection trace, textList_lookup?]
    rfl
  · next blank =>
    rw [Bool.not_eq_true] at blank
    simp only [token, part_of_not_truthy blank]
    rfl

/-- A value that is no mapping is refused as a whole, first of all. -/
theorem ofValue_of_not_isSection (path : String) (noMap : ¬ v.IsSection) :
    ofValue path v = .error (.refused (.notMapping path)) := by
  obtain ⟨given, noMap⟩ := not_or.mp noMap
  rw [Bool.not_eq_false] at given
  unfold ofValue
  simp only [given, ↓reduceIte]
  split
  · next entries _ => exact absurd ⟨entries, rfl⟩ noMap
  · rfl

/-- A misshapen netlist section is refused before the others are looked at. -/
theorem ofValue_of_netlist (path : String) (misshapen : ¬ (v.part "netlist").IsSection) :
    ofValue path v = refuse (.badSection path "netlist") (v.part "netlist") := by
  have given : v.isTruthy = true := isTruthy_of_part misshapen
  cases v with
  | map entries =>
    have misshapen : ¬ (Value.entry entries "netlist").IsSection := misshapen
    unfold ofValue
    simp only [given, ↓reduceIte, sectionOf_of_not_isSection misshapen]
    rfl
  | _ => exact absurd .blank misshapen

/-- A misshapen trace section is refused behind a netlist section in order. -/
theorem ofValue_of_trace (path : String) (netlist : (v.part "netlist").IsSection)
    (misshapen : ¬ (v.part "trace").IsSection) :
    ofValue path v = refuse (.badSection path "trace") (v.part "trace") := by
  have given : v.isTruthy = true := isTruthy_of_part misshapen
  cases v with
  | map entries =>
    have netlist : (Value.entry entries "netlist").IsSection := netlist
    have misshapen : ¬ (Value.entry entries "trace").IsSection := misshapen
    unfold ofValue
    simp only [given, ↓reduceIte, sectionOf_of_isSection netlist,
      sectionOf_of_not_isSection misshapen]
    rfl
  | _ => exact absurd .blank misshapen

/-- A number that cannot be written ends the reading, where the reading comes to it. -/
theorem ofValue_of_unwritten (path : String) (unwritten : Unwritten v) :
    ofValue path v = .error .numberTooLong := by
  cases unwritten with
  | netlist misshapen long => rw [ofValue_of_netlist path misshapen, refuse_of_not_isWritable long]
  | trace netlist misshapen long =>
    rw [ofValue_of_trace path netlist misshapen, refuse_of_not_isWritable long]
  | select netlist trace long =>
    have document := Value.isSection_of_part (Value.ne_null_of_not_isWritable long)
    rw [ofValue_of_sections path document netlist trace, textList_of_not_isWritable long]
    rfl
  | token netlist trace select long =>
    rw [ofValue_of_sections path (isSection_of_token long) netlist trace,
      nameOf_of_not_isWritable long]
    cases written : (v.part "select").isWritable with
    | false => rw [textList_of_not_isWritable written]; rfl
    | true => rw [textList_of_isTexts select written]; rfl
  | muxTypes netlist trace select long =>
    have given : (v.part "trace") ≠ .null := fun none => by rw [none] at long; cases long
    have types : muxTypesOf path (v.part "trace").entries = .error .numberTooLong :=
      (muxTypesOf_of_truthy (Value.isTruthy_of_not_isWritable long)).trans
        (textList_of_not_isWritable long)
    rw [ofValue_of_sections path (Value.isSection_of_part given) netlist trace, types]
    cases written : (v.part "select").isWritable with
    | false => rw [textList_of_not_isWritable written]; rfl
    | true =>
      rw [textList_of_isTexts select written]
      cases named : (token v).isWritable with
      | false => rw [nameOf_of_not_isWritable named]; rfl
      | true => rw [nameOf_of_isWritable named]; rfl

theorem shown_of_written {part : Value} (written : ¬ Unwritten v)
    (unwritten : part.isWritable = false → Unwritten v) : part.isWritable = true :=
  (Bool.not_eq_false _).mp fun long => written (unwritten long)

/-- A value of the right shape that is written throughout gives the configuration described. -/
theorem ofValue_of_shape (path : String) (shape : Shape v) (written : ¬ Unwritten v) :
    ofValue path v = .ok (described v) := by
  have select : (v.part "select").isWritable = true :=
    shown_of_written written (.select shape.netlist shape.trace)
  have named : (token v).isWritable = true :=
    shown_of_written written (.token shape.netlist shape.trace shape.select)
  have types : ((v.part "trace").part "mux_types").isWritable = true :=
    shown_of_written written (.muxTypes shape.netlist shape.trace shape.select)
  have muxTypes : muxTypesOf path (v.part "trace").entries = .ok _ :=
    muxTypesOf_eq_ok shape.muxTypes types
  rw [ofValue_of_sections path shape.document shape.netlist shape.trace,
    textList_of_isTexts shape.select select, nameOf_of_isWritable named, muxTypes]
  rfl

/-- A document out of shape is refused, and the fault tells of a part that is out of shape. -/
theorem ofValue_of_not_shape (path : String) (misshapen : ¬ Shape v) (written : ¬ Unwritten v) :
    ∃ fault, ofValue path v = .error (.refused fault) ∧ fault.TellsOf path v := by
  by_cases document : v.IsSection
  · -- the parts are read in this order, and the first one out of shape is told of
    by_cases netlist : (v.part "netlist").IsSection
    · by_cases trace : (v.part "trace").IsSection
      · by_cases select : (v.part "select").IsTexts
        · obtain ⟨typed, types⟩ := not_or.mp fun types =>
            misshapen ⟨document, netlist, trace, select, types⟩
          have shown : ((v.part "trace").part "mux_types").isWritable = true :=
            shown_of_written written (.muxTypes netlist trace select)
          have named : (token v).isWritable = true :=
            shown_of_written written (.token netlist trace select)
          have listed : (v.part "select").isWritable = true :=
            shown_of_written written (.select netlist trace)
          have muxTypes : muxTypesOf path (v.part "trace").entries = .error _ :=
            (muxTypesOf_of_truthy ((Bool.not_eq_false _).mp typed)).trans
              ((textList_of_not_isTexts types).trans (refuse_of_isWritable shown))
          rw [ofValue_of_sections path document netlist trace, textList_of_isTexts select listed,
            nameOf_of_isWritable named, muxTypes]
          exact ⟨_, rfl, rfl, .inr ⟨rfl, rfl⟩, types⟩
        · have shown : (v.part "select").isWritable = true :=
            shown_of_written written (.select netlist trace)
          rw [ofValue_of_sections path document netlist trace, textList_of_not_isTexts select,
            refuse_of_isWritable shown]
          exact ⟨_, rfl, rfl, .inl ⟨rfl, rfl⟩, select⟩
      · have shown : (v.part "trace").isWritable = true :=
          shown_of_written written (.trace netlist trace)
        rw [ofValue_of_trace path netlist trace, refuse_of_isWritable shown]
        exact ⟨_, rfl, rfl, by decide, rfl, trace⟩
    · have shown : (v.part "netlist").isWritable = true :=
        shown_of_written written (.netlist netlist)
      rw [ofValue_of_netlist path netlist, refuse_of_isWritable shown]
      exact ⟨_, rfl, rfl, by decide, rfl, netlist⟩
  · rw [ofValue_of_not_isSection path document]
    exact ⟨_, rfl, rfl, document⟩

/-- What comes of a document: the configuration that it describes, a fault that tells of a part out
of shape, or an end by a number that cannot be written. -/
inductive ComesOf (path : String) (v : Value) : Except ConfigEnd Config → Prop where
  | configuration (shape : Shape v) (written : ¬ Unwritten v) : ComesOf path v (.ok (described v))
  | refused {fault : ConfigFault} (misshapen : ¬ Shape v) (written : ¬ Unwritten v)
      (tells : fault.TellsOf path v) : ComesOf path v (.error (.refused fault))
  | unwritten (unwritten : Unwritten v) : ComesOf path v (.error .numberTooLong)

/-- The reading comes to what its specification says, for every value. -/
theorem comesOf_ofValue (path : String) (v : Value) : ComesOf path v (ofValue path v) := by
  by_cases unwritten : Unwritten v
  · rw [ofValue_of_unwritten path unwritten]
    exact .unwritten unwritten
  · by_cases shape : Shape v
    · rw [ofValue_of_shape path shape unwritten]
      exact .configuration shape unwritten
    · obtain ⟨fault, refused, tells⟩ := ofValue_of_not_shape path shape unwritten
      rw [refused]
      exact .refused shape unwritten tells

end Config

/-! ## What the loader meets -/

namespace Design

theorem ofLoaded_ne_pathNotText (path : String) (top : Value) (loaded : Loaded) :
    ofLoaded path top loaded ≠ .error .pathNotText := by
  unfold ofLoaded
  split
  · exact nofun
  · exact nofun
  · exact nofun
  · next v =>
    cases Document.design v top with
    | error fault => exact nofun
    | ok d => exact nofun

theorem loadFrom_ne_pathNotText (read : String → Id Loaded) (path : String) (top : Value) :
    (loadFrom read path top).run.outcome ≠ .error .pathNotText := by
  have outcome : (loadFrom read path top).run.outcome =
      ofLoaded (Path.plain path) top (read (Path.plain path)) := by
    unfold loadFrom
    simp only [bind, pure]
    split
    · next fault failed => exact failed.symm
    · next d loaded => exact loaded.symm
  rw [outcome]
  exact ofLoaded_ne_pathNotText _ top _

/-- A path that is given and no text ends the loading, and no other path ends it so. -/
theorem ofConfig_eq_pathNotText_iff (read : String → Id Loaded) (c : Config) :
    (ofConfig read c).run.outcome = .error .pathNotText ↔
      c.netlist.isTruthy = true ∧ ¬ c.netlist.IsText := by
  have selected : (ofConfig read c).run.outcome =
      (load read c .null).run.outcome.map fun d =>
        if c.select.isEmpty then d else d.select c.select := rfl
  have asked : Value.orElse .null c.netlist = c.netlist := rfl
  have kept (outcome : Except SetupFault Design) (f : Design → Design) :
      outcome.map f = .error .pathNotText ↔ outcome = .error .pathNotText := by
    cases outcome <;> simp [Except.map]
  rw [selected, kept]
  unfold load
  rw [asked]
  generalize c.netlist = v
  split
  · next path =>
    refine iff_of_false ?_ fun other => other.2 (.text path)
    split
    · exact nofun
    · exact loadFrom_ne_pathNotText read path c.top
  · next noText =>
    cases given : v.isTruthy with
    | false => exact iff_of_false nofun fun met => nomatch met.1
    | true => exact iff_of_true rfl ⟨rfl, Value.not_isText given noText⟩

end Design

/-- A top that is given and no text ends the reading of a netlist; the one that is asked for comes
before the one that the netlist names. -/
theorem Document.topName_eq_error_iff {asked : Value} (entries : List (Value × Value)) :
    topName asked entries = .error (.kind .topNotText) ↔
      (asked.orElse (Value.entry entries "top")).isTruthy = true ∧
        ¬ (asked.orElse (Value.entry entries "top")).IsText := by
  unfold topName
  generalize asked.orElse (Value.entry entries "top") = v
  split
  · next name => exact iff_of_false nofun fun other => other.2 (.text name)
  · next noText =>
    cases given : v.isTruthy with
    | false => exact iff_of_false nofun fun met => nomatch met.1
    | true => exact iff_of_true rfl ⟨rfl, Value.not_isText given noText⟩

/-! ## What a file gives -/

namespace Config

variable {path : String} {v : Value} {read : String → Id Loaded} {c : Config}

/-- A file that is read and parsed ends in what its value ends in. -/
theorem load_of_value (loads : read path = .ok (.ok v)) :
    (load read path).run = (ofValue path v).mapError ConfigEnd.fault := by
  rw [load]
  simp only [bind, loads]
  rfl

/-- **Configurations are typed.** A file with a document either is refused as a configuration or
gives a well-typed one, unless a number in it has too many digits for what has to be written, or the
document has the shape of a configuration and in it a path or a top that is no text: whatever else
is of a wrong kind is told of. There is always a type of multiplexers. And what is handed on is what
the loader fails by. -/
theorem load_wellTyped_iff (loads : read path = .ok (.ok v)) :
    (((∃ fault, (load read path).run = .error (.config fault)) ∨
        ∃ c, (load read path).run = .ok c ∧ c.WellTyped) ↔
      ¬ Unwritten v ∧ (Shape v → ((v.part "netlist").part "path").IsText ∧
        ((v.part "netlist").part "top").IsText)) ∧
    (∀ fault, (load read path).run = .error fault →
      (fault = .numberTooLong ∧ Unwritten v) ∨ ∃ f, fault = .config f ∧ f.TellsOf path v) ∧
    ∀ c, (load read path).run = .ok c → c = described v ∧ c.muxTypes ≠ [] ∧
      ((Design.ofConfig read c).run.outcome = .error .pathNotText ↔
        c.netlist.isTruthy = true ∧ ¬ c.netlist.IsText) ∧
      ∀ entries, Document.topName c.top entries = .error (.kind .topNotText) ↔
        (c.top.orElse (Value.entry entries "top")).isTruthy = true ∧
          ¬ (c.top.orElse (Value.entry entries "top")).IsText := by
  rw [load_of_value loads]
  have comes := comesOf_ofValue path v
  generalize ofValue path v = outcome at comes ⊢
  cases comes with
  | configuration shape written =>
    refine ⟨⟨?_, fun ⟨_, texts⟩ => ?_⟩, nofun, fun c accepted => ?_⟩
    · rintro (⟨fault, refused⟩ | ⟨c, accepted, typed⟩)
      · cases refused
      · cases accepted
        exact ⟨written, fun _ => ⟨typed.netlist, typed.top⟩⟩
    · obtain ⟨netlist, top⟩ := texts shape
      exact .inr ⟨described v, rfl, netlist, top, typesIn_ne_nil shape.muxTypes⟩
    · cases accepted
      exact ⟨rfl, typesIn_ne_nil shape.muxTypes, Design.ofConfig_eq_pathNotText_iff read _,
        Document.topName_eq_error_iff⟩
  | @refused f misshapen written tells =>
    refine ⟨⟨fun _ => ⟨written, fun shape => absurd shape misshapen⟩, fun _ => .inl ⟨f, rfl⟩⟩, ?_,
      nofun⟩
    intro fault failed
    cases failed
    exact .inr ⟨f, rfl, tells⟩
  | unwritten unwritten =>
    refine ⟨⟨?_, fun other => absurd unwritten other.1⟩, ?_, nofun⟩
    · rintro (⟨fault, refused⟩ | ⟨c, accepted, -⟩)
      · cases refused
      · cases accepted
    · intro fault failed
      cases failed
      exact .inl ⟨rfl, unwritten⟩

/-- A token of one digit too many. -/
example : Unwritten (.map [(.text "trace", .map [(.text "reset_token", .int (10 ^ 4300))])]) :=
  .token .blank (.inr ⟨_, rfl⟩) .null (by decide +kernel)

/-- A document with a path, without a top, and with a number among the types. -/
def plainDocument : Value :=
  .map [(.text "netlist", .map [(.text "path", .text "core.yaml"), (.text "top", .null)]),
    (.text "select", .text "core"),
    (.text "trace", .map [(.text "mux_types", .list [.text "$mux", .int 1])])]

theorem load_wellTyped_iff_plain : ∃ c,
    (load (fun _ => .ok (.ok plainDocument)) "trace.yml" : Id _).run = .ok c ∧ c.WellTyped ∧
      c.select = ["core"] ∧ c.muxTypes = ["$mux", "1"] := by
  have written : ¬ Unwritten plainDocument := by
    rintro (⟨-, long⟩ | ⟨-, -, long⟩ | ⟨-, -, long⟩ | ⟨-, -, -, long⟩ | ⟨-, -, -, long⟩) <;>
      exact absurd long (by decide)
  have typed := (@load_wellTyped_iff "trace.yml" plainDocument (fun _ => .ok (.ok plainDocument))
    rfl).1.mpr ⟨written, fun _ => ⟨.text "core.yaml", .null⟩⟩
  rcases typed with ⟨fault, refused⟩ | ⟨c, accepted, typed⟩
  · cases refused
  · refine ⟨c, accepted, typed, ?_⟩
    cases accepted
    exact ⟨rfl, by decide⟩

/-- A document whose path is a number. -/
def numberedDocument : Value :=
  .map [(.text "netlist", .map [(.text "path", .int 5)])]

/-- A path of a wrong kind is not told of: it is handed on, and the loading ends by it. -/
theorem not_load_wellTyped : ∃ read : String → Id Loaded,
    read "trace.yml" = .ok (.ok numberedDocument) ∧
    ¬ ((∃ fault, (load read "trace.yml").run = .error (.config fault)) ∨
      ∃ c, (load read "trace.yml").run = .ok c ∧ c.WellTyped) ∧
    ∃ c, (load read "trace.yml").run = .ok c ∧
      (Design.ofConfig read c).run.outcome = .error .pathNotText := by
  refine ⟨fun _ => .ok (.ok numberedDocument), rfl, ?_, _, rfl, rfl⟩
  rintro (⟨fault, refused⟩ | ⟨c, accepted, typed⟩)
  · cases refused
  · cases accepted
    exact nomatch typed.netlist

end Config

end NearestMux
