import NearestMux.Netlist.Attributes
import NearestMux.Netlist.Design
import NearestMux.Signal.Reader
import NearestMux.Value.Integer

/-!
# Netlist documents — a design from a value

A netlist document is a mapping with a mapping of modules in it. Every module may have wires, cells,
direct connections and processes; what is left out, or stands there as an empty value, is empty.

The document is read in two passes, because a cell may be an instance of a module that comes later
and a signal may name any wire of its module. The first pass enters the modules and their wires, the
second their cells, connections and processes. So a fault in the wires of a late module is reported
before one in the cells of an early one; within a pass the first fault in the order of the document
is the one reported.

Ports of an instance are wires of the module that it instantiates, so their names are filed in
marked form; the ports of a primitive are words of the library and stay as they are.

Three kinds of fault are kept apart. A document that breaks the rules of a netlist is a
`FormatFault`, told with the module it is in. A module whose name is taken is the fault of the
declaration itself. A value of a wrong kind or of a size that nothing can have, in a place where the
rules above name no fault, is a `KindFault`.

A number with too many digits is such a size, and not only where a signal is read. A number that
serves as a name has to be written, and so has one that the text of a `FormatFault` shows: where it
cannot be, the fault is that one (`Document.failIn`).
-/

namespace NearestMux

/-- What is wrong inside a module of a document. -/
inductive ModuleFault where
  /-- A wire is no mapping. -/
  | wireNotMapping (name : String)
  /-- The direction of a wire is neither input nor output. -/
  | wireDirection (name : String) (direction : Value)
  /-- A wire or a cell is refused. -/
  | declaration (fault : DeclareFault)
  /-- The width of a wire is no number. -/
  | width (fault : NumberFault)
  /-- A pair of attributes has another length than two. -/
  | attributePair (place length : Nat)
  /-- A cell is no mapping. -/
  | cellNotMapping (name : String)
  /-- A cell has no type. -/
  | cellWithoutType (name : String)
  /-- A word that a cell notes for a port names no direction. -/
  | portDirection (cell port word : String)
  /-- A connection is no pair. -/
  | connectionShape (place : Nat)
  /-- The sides of a connection have different numbers of bits. -/
  | connectionWidth (place target source : Nat)
  /-- A value is no signal. -/
  | signal (fault : SignalFault)

/-- The text of the fault. -/
def ModuleFault.message : ModuleFault → String
  | .wireNotMapping name => "wire " ++ name ++ " must be a mapping"
  | .wireDirection name direction => "wire " ++ name ++ " has bad direction " ++ direction.quoted
  | .declaration fault => fault.message
  | .width fault => fault.message
  | .attributePair place length =>
    "dictionary update sequence element #" ++ Text.natText place ++ " has length " ++
      Text.natText length ++ "; 2 is required"
  | .cellNotMapping name => "cell " ++ name ++ " must be a mapping"
  | .cellWithoutType name => "cell " ++ name ++ " has no type"
  | .portDirection cell port word =>
    "cell " ++ cell ++ " port " ++ port ++ " has bad direction " ++ Text.quoted word
  | .connectionShape place => "connection #" ++ Text.natText place ++ " must be [lhs, rhs]"
  | .connectionWidth place target source =>
    "connection #" ++ Text.natText place ++ " width mismatch (" ++ Text.natText target ++ " vs " ++
      Text.natText source ++ ")"
  | .signal fault => fault.message

/-- Whether the numbers that the text of the fault shows can be written. The width of a wire that is
to have less than no bits need not be: then its text says that instead. -/
def ModuleFault.isTellable : ModuleFault → Bool
  | .wireDirection _ direction => direction.isWritable
  | .connectionWidth _ target source => Text.isWritable target && Text.isWritable source
  | .signal fault => fault.isTellable
  | _ => true

/-- Why a document is no netlist. -/
inductive FormatFault where
  /-- The document, or what it has under `modules`, is no mapping. -/
  | noModules
  /-- The top is not one of the modules. -/
  | undefinedTop (name : String)
  /-- Something is wrong inside a module. -/
  | inModule (module : String) (fault : ModuleFault)

/-- The text of the fault. -/
def FormatFault.message : FormatFault → String
  | .noModules => "netlist must be a mapping with a 'modules' mapping"
  | .undefinedTop name => "top module " ++ name ++ " is not defined"
  | .inModule module fault => "module " ++ module ++ ": " ++ fault.message

/-- A value of a wrong kind or size. -/
inductive KindFault where
  /-- A mapping is needed. -/
  | notMapping
  /-- The name of the top must be a text. -/
  | topNotText
  /-- A list is needed. -/
  | notList
  /-- The width of a wire must be a number. -/
  | widthNotNumber
  /-- The width of a wire must be finite. -/
  | infiniteWidth
  /-- The attributes of a wire must be a mapping whose names are texts that are not reserved. -/
  | attributes (fault : AttributesFault)
  /-- The width of a constant must be one that a row of bits can be filled up to. -/
  | constantTooWide (width : Nat)
  /-- A number that is to be read or written must not have too many digits. -/
  | numberTooLong
deriving DecidableEq

/-- The text of the fault. -/
def KindFault.message : KindFault → String
  | .notMapping => "a mapping was expected"
  | .topNotText => "the name of the top module must be a text"
  | .notList => "a list was expected"
  | .widthNotNumber => "the width of a wire must be a number"
  | .infiniteWidth => "the width of a wire must be finite"
  | .attributes _ => "the attributes of a wire must be a mapping from free names"
  | .constantTooWide width => (SignalFault.tooWide width).message
  | .numberTooLong => Text.unwritableMessage

/-- Why a document gives no design. -/
inductive DocumentFault where
  /-- The document breaks the rules of a netlist. -/
  | format (fault : FormatFault)
  /-- A module is refused. -/
  | declaration (fault : DeclareFault)
  /-- A value is of a wrong kind or size. -/
  | kind (fault : KindFault)

/-- The text of the fault. -/
def DocumentFault.message : DocumentFault → String
  | .format fault => fault.message
  | .declaration fault => fault.message
  | .kind fault => fault.message

namespace Document

/-- A fault inside a module, or that it cannot be told. -/
def failIn {α : Type} (m : Module) (fault : ModuleFault) : Except DocumentFault α :=
  if fault.isTellable then .error (.format (.inModule m.name fault))
  else .error (.kind .numberTooLong)

/-- The name that a value gives. -/
def nameOf (v : Value) : Except DocumentFault String :=
  match v.name? with
  | some name => .ok name
  | none => .error (.kind .numberTooLong)

/-- The entries of a mapping; an empty value of any kind has none. -/
def fields (v : Value) : Except DocumentFault (List (Value × Value)) :=
  if v.isTruthy then
    match v with
    | .map entries => .ok entries
    | _ => .error (.kind .notMapping)
  else .ok []

/-- The items of a list; an empty value of any kind has none. Whatever else has parts counts as the
list of them: a text of its characters, a mapping of its keys. -/
def items (v : Value) : Except DocumentFault (List Value) :=
  if v.isTruthy then
    match Attributes.parts? v with
    | some parts => .ok parts
    | none => .error (.kind .notList)
  else .ok []

/-- The mapping that describes a wire or a cell; an empty value of any kind is an empty mapping. -/
def description? (v : Value) : Option (List (Value × Value)) :=
  if v.isTruthy then
    match v with
    | .map entries => some entries
    | _ => none
  else some []

/-- The width that a document gives a wire; one bit when it gives none. -/
def wireWidth (m : Module) (entries : List (Value × Value)) : Except DocumentFault Int :=
  match ((Value.lookup? entries "width").getD (.int 1)).integer with
  | .ok width => .ok width
  | .error .noNumber => .error (.kind .widthNotNumber)
  | .error .infinite => .error (.kind .infiniteWidth)
  | .error fault => failIn m (.width fault)

/-- The attributes that a document gives a wire. -/
def wireAttributes (m : Module) (entries : List (Value × Value)) :
    Except DocumentFault (List (String × Value)) :=
  let value := Value.entry entries "attributes"
  if value.isTruthy then
    match Attributes.ofValue value with
    | .ok attributes => .ok attributes
    | .error (.notPair place length) => failIn m (.attributePair place length)
    | .error fault => .error (.kind (.attributes fault))
  else .ok []

/-- Whether a wire of a direction is an input and whether it is an output; `none` for a value that
is no direction of a wire. -/
def wireDirection? : Value → Option (Bool × Bool)
  | .null => some (false, false)
  | .text "input" => some (true, false)
  | .text "output" => some (false, true)
  | _ => none

/-- Declares a wire of a document. -/
def addWire (m : Module) (key v : Value) : Except DocumentFault Module := do
  let name ← nameOf key
  match description? v with
  | none => failIn m (.wireNotMapping name)
  | some entries =>
    let direction := Value.entry entries "direction"
    match wireDirection? direction with
    | none => failIn m (.wireDirection name direction)
    | some (input, output) =>
      let width ← wireWidth m entries
      let attributes ← wireAttributes m entries
      match m.addWire ⟨name, width, input, output, attributes⟩ with
      | .ok m => return m
      | .error fault => failIn m (.declaration fault)

/-- Declares the wires of a document in a module. -/
def addWires : Module → List (Value × Value) → Except DocumentFault Module
  | m, [] => .ok m
  | m, (key, v) :: rest => do addWires (← addWire m key v) rest

/-- Enters a module of a document with its wires. -/
def addModule (d : Design) (key v : Value) : Except DocumentFault Design := do
  let name ← nameOf key
  match d.addModule name with
  | .error fault => .error (.declaration fault)
  | .ok d =>
    let entries ← fields v
    let wires ← fields (Value.entry entries "wires")
    return d.put (← addWires (Module.new (Identifier.escape name)) wires)

/-- Enters the modules of a document with their wires. -/
def addModules : Design → List (Value × Value) → Except DocumentFault Design
  | d, [] => .ok d
  | d, (key, v) :: rest => do addModules (← addModule d key v) rest

/-- Reads a signal in a module. -/
def signal (m : Module) (v : Value) : Except DocumentFault Signal :=
  match Signal.ofValue (fun name => (m.wire? name).map (·.toWire)) v with
  | .ok s => .ok s
  | .error (.tooWide width) => .error (.kind (.constantTooWide width))
  | .error (.tooManyDigits _) => .error (.kind .numberTooLong)
  | .error fault => failIn m (.signal fault)

/-- Reads the bindings of a cell; `marked` says whether its ports are filed in marked form. -/
def bindings (m : Module) (marked : Bool) :
    Roster Binding → List (Value × Value) → Except DocumentFault (Roster Binding)
  | done, [] => .ok done
  | done, (port, v) :: rest => do
    let name ← nameOf port
    let port := if marked then Identifier.escape name else name
    bindings m marked (done.put ⟨port, ← signal m v⟩) rest

/-- The directions that a cell notes, as they stand. -/
def noted : List (Value × Value) → Except DocumentFault (List DirectionNote)
  | [] => .ok []
  | (port, word) :: rest => do return ⟨← nameOf port, ← nameOf word⟩ :: (← noted rest)

/-- Places a cell of a document. -/
def addCell (d : Design) (m : Module) (key v : Value) : Except DocumentFault Module := do
  let name ← nameOf key
  match description? v with
  | none => failIn m (.cellNotMapping name)
  | some entries =>
    let type := Value.entry entries "type"
    if !type.isTruthy then failIn m (.cellWithoutType name)
    else
      let type := Identifier.escape (← nameOf type)
      let bound ← fields (Value.entry entries "connections")
      let bindings ← bindings m (d.module? type).isSome ∅ bound
      let directions ← fields (Value.entry entries "directions")
      let notes := Roster.ofList (← noted directions)
      match notes.toList.find? fun note => (Direction.ofWord? note.word).isNone with
      | some note => failIn m (.portDirection name note.port note.word)
      | none =>
        match m.addCell name type bindings notes with
        | .ok m => return m
        | .error fault => failIn m (.declaration fault)

/-- Places the cells of a document in a module. -/
def addCells (d : Design) : Module → List (Value × Value) → Except DocumentFault Module
  | m, [] => .ok m
  | m, (key, v) :: rest => do addCells d (← addCell d m key v) rest

/-- The two sides of a connection. -/
def sides? : Value → Option (Value × Value)
  | .list [target, source] => some (target, source)
  | .pair target source => some (target, source)
  | _ => none

/-- Makes the connection at a place of a document's list. -/
def connect (m : Module) (place : Nat) (v : Value) : Except DocumentFault Module := do
  match sides? v with
  | some (target, source) =>
    let target ← signal m target
    let source ← signal m source
    if target.size = source.size then return m.connect target source
    else failIn m (.connectionWidth place target.size source.size)
  | none => failIn m (.connectionShape place)

/-- Makes the connections of a document in a module, from a place on. -/
def connectAll : Module → Nat → List Value → Except DocumentFault Module
  | m, _, [] => .ok m
  | m, place, v :: rest => do connectAll (← connect m place v) (place + 1) rest

/-- The names that values give one by one. -/
def namesOf : List Value → Except DocumentFault (List String)
  | [] => .ok []
  | v :: rest => do return (← nameOf v) :: (← namesOf rest)

/-- Completes a module with its cells, connections and processes. The key is the one under which it
was entered, so it gives a name. -/
def complete (d : Design) (key v : Value) : Except DocumentFault Design := do
  match d.module? (Identifier.escape key.name) with
  | none => return d
  | some m =>
    let entries ← fields v
    let cells ← fields (Value.entry entries "cells")
    let m ← addCells d m cells
    let m ← connectAll m 0 (← items (Value.entry entries "connections"))
    let processes ← items (Value.entry entries "processes")
    return d.put (m.addProcesses (← namesOf processes))

/-- Completes the modules of a document. -/
def completeAll : Design → List (Value × Value) → Except DocumentFault Design
  | d, [] => .ok d
  | d, (key, v) :: rest => do completeAll (← complete d key v) rest

/-- The name of the top: the one that is asked for, else the one that the document gives. -/
def topName (asked : Value) (entries : List (Value × Value)) :
    Except DocumentFault (Option String) :=
  match asked.orElse (Value.entry entries "top") with
  | .text name => .ok (some name)
  | v => if v.isTruthy then .error (.kind .topNotText) else .ok none

/-- Whether the top of a design is missing from its modules. -/
def missingTop? (d : Design) : Option String :=
  d.top.filter fun name => (d.module? name).isNone

/-- The design of a document, with a top that is asked for. -/
def design (v : Value) (asked : Value) : Except DocumentFault Design := do
  match v with
  | .map entries =>
    match Value.entry entries "modules" with
    | .map modules =>
      let top ← topName asked entries
      let d ← addModules (Design.new top) modules
      let d ← completeAll d modules
      match missingTop? d with
      | some name => .error (.format (.undefinedTop name))
      | none => return d
    | _ => .error (.format .noModules)
  | _ => .error (.format .noModules)

end Document

end NearestMux
