import NearestMux.Documents
import NearestMux.Multiplexer
import NearestMux.Value.Text

/-!
# Configurations — what a query is run with

A configuration says which netlist is read and which module is its top, what is selected, and which
cells are multiplexers. It is a document with the sections `netlist` and `trace` and a list
`select`, all of which may be left out:

    netlist: with a path and a top
    select: patterns
    trace: with a reset token and the types of multiplexers

A section must be a mapping and a list may be a single text. Beyond that nothing is checked here:
the path and the top are handed on as the values they are, and whoever uses them finds out what they
are. The reset token and the items of a list are taken by their spelling, so that `no` as a token is
the text `False`.

What is taken by its spelling, and what a fault shows, has to be written, and a number with too many
digits cannot be. That ends the reading without a fault of the configuration (`ConfigEnd`).
-/

namespace NearestMux

/-- What a query is run with. -/
structure Config where
  /-- The path of the netlist. -/
  netlist : Value
  /-- The name of the top. -/
  top : Value
  /-- The patterns of the selection. -/
  select : List String
  /-- What marks the name of a reset. -/
  resetToken : String
  /-- The types of multiplexers. -/
  muxTypes : List String

/-- Why a document is no configuration. -/
inductive ConfigFault where
  /-- The text is no document. -/
  | malformed (path : String)
  /-- The document is no mapping. -/
  | notMapping (path : String)
  /-- A section is no mapping. -/
  | badSection (path key : String) (value : Value)
  /-- A list is neither a list nor a text. -/
  | badList (path key : String) (value : Value)

/-- The text of the fault. -/
def ConfigFault.message : ConfigFault → String
  | .malformed path => path ++ ": <yaml>"
  | .notMapping path => path ++ ": config must be a mapping"
  | .badSection path key value =>
    path ++ ": '" ++ key ++ "' must be a mapping, got " ++ value.quoted
  | .badList path key value =>
    path ++ ": '" ++ key ++ "' must be a string or a list, got " ++ value.quoted

/-- What ends the reading of a configuration. -/
inductive ConfigEnd where
  /-- The document is no configuration. -/
  | refused (fault : ConfigFault)
  /-- A number that is to be written has too many digits. -/
  | numberTooLong

namespace Config

/-- The configuration that says nothing. -/
def default : Config := ⟨.null, .null, [], MuxRule.customaryToken, MuxRule.customaryTypes⟩

/-- Which cells are multiplexers. -/
def rule (c : Config) : MuxRule := ⟨c.muxTypes, c.resetToken⟩

/-- Ends by a fault that shows a value, if the value can be written. -/
def refuse {α : Type} (fault : Value → ConfigFault) (shown : Value) : Except ConfigEnd α :=
  .error (if shown.isWritable then .refused (fault shown) else .numberTooLong)

/-- The name that a value gives. -/
def nameOf (v : Value) : Except ConfigEnd String :=
  match v.name? with
  | some name => .ok name
  | none => .error .numberTooLong

/-- The names that values give one by one. -/
def namesOf : List Value → Except ConfigEnd (List String)
  | [] => .ok []
  | v :: rest => do return (← nameOf v) :: (← namesOf rest)

/-- The entries of a section; an empty value of any kind has none. -/
def sectionOf (path : String) (entries : List (Value × Value)) (key : String) :
    Except ConfigEnd (List (Value × Value)) :=
  let value := Value.entry entries key
  if value.isTruthy then
    match value with
    | .map fields => .ok fields
    | other => refuse (.badSection path key) other
  else .ok []

/-- The texts of a list. -/
def textList (path key : String) : Value → Except ConfigEnd (List String)
  | .null => .ok []
  | .text s => .ok [s]
  | .list items => namesOf items
  | other => refuse (.badList path key) other

/-- The types of multiplexers that a section gives; an empty value of any kind gives the customary
ones. -/
def muxTypesOf (path : String) (entries : List (Value × Value)) :
    Except ConfigEnd (List String) :=
  let value := Value.entry entries "mux_types"
  if value.isTruthy then textList path "trace.mux_types" value else .ok MuxRule.customaryTypes

/-- The token that a section gives. -/
def tokenOf (entries : List (Value × Value)) : Except ConfigEnd String :=
  nameOf ((Value.lookup? entries "reset_token").getD (.text MuxRule.customaryToken))

/-- The configuration of a document. -/
def ofValue (path : String) (v : Value) : Except ConfigEnd Config :=
  if v.isTruthy then
    match v with
    | .map entries => do
      let netlist ← sectionOf path entries "netlist"
      let trace ← sectionOf path entries "trace"
      let select ← textList path "select" ((Value.lookup? entries "select").getD (.list []))
      let resetToken ← tokenOf trace
      let muxTypes ← muxTypesOf path trace
      return {
        netlist := Value.entry netlist "path"
        top := Value.entry netlist "top"
        select := select
        resetToken := resetToken
        muxTypes := muxTypes }
    | _ => .error (.refused (.notMapping path))
  else .ok default

end Config

end NearestMux
