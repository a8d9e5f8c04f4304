import NearestMux.Config
import NearestMux.Netlist.Document
import NearestMux.Query

/-!
# Setting up — from paths to a design that can be queried

Between a path and a design stand the file, its text and the document, and each of them can fail in
its own way. `SetupFault` has one case for each. What is read, and where from, is left to the
caller: the functions here take a reader and work in whatever the reader works in.

A design is loaded from the path that is asked for or else from the one of the configuration.
Patterns of the configuration select; without any, everything is selected.
-/

namespace NearestMux

/-- Why there is no design to query. -/
inductive SetupFault where
  /-- No netlist is named. -/
  | noNetlist
  /-- What should be a path is no text. -/
  | pathNotText
  /-- The file cannot be read. -/
  | file (path : String) (fault : FileFault)
  /-- The text of the netlist is no document. -/
  | malformed (path : String)
  /-- The text has the form of a document, and has no value or nests too deep to be given one. -/
  | valueless (fault : Yaml.Fault)
  /-- The document is no netlist. -/
  | document (fault : DocumentFault)
  /-- The document is no configuration. -/
  | config (fault : ConfigFault)
  /-- A number of the configuration is to be written and has too many digits. -/
  | numberTooLong

/-- The text of the fault. -/
def SetupFault.message : SetupFault → String
  | .noNetlist => "No netlist file configured"
  | .pathNotText => "the path of the netlist must be a text"
  | .file path fault => fault.message path
  | .malformed path => path ++ ": <yaml>"
  | .valueless .tooDeep => "the document nests too deep"
  | .valueless .numberTooLong => Text.unwritableMessage
  | .valueless _ => "a number without digits or a character beyond the last one"
  | .document fault => fault.message
  | .config fault => fault.message
  | .numberTooLong => Text.unwritableMessage

/-- What the end of a reading is to the setting up. -/
def ConfigEnd.fault : ConfigEnd → SetupFault
  | .refused fault => .config fault
  | .numberTooLong => .numberTooLong

/-- A computation that keeps a journal and may fail; what was noted before a failure is kept. -/
structure Noted (ε α : Type) where
  /-- What was noted. -/
  journal : List Entry
  /-- The result, or why there is none. -/
  outcome : Except ε α

namespace Config

/-- Reads the configuration of a path. -/
def load {m : Type → Type} [Monad m] (read : String → m Loaded) (path : String) :
    m (Except SetupFault Config) := do
  match ← read path with
  | .error fault => return .error (.file path fault)
  | .ok (.error .malformed) => return .error (.config (.malformed path))
  | .ok (.error fault) => return .error (.valueless fault)
  | .ok (.ok v) => return (ofValue path v).mapError ConfigEnd.fault

end Config

namespace Design

/-- The design of a loaded file. -/
def ofLoaded (path : String) (top : Value) : Loaded → Except SetupFault Design
  | .error fault => .error (.file path fault)
  | .ok (.error .malformed) => .error (.malformed path)
  | .ok (.error fault) => .error (.valueless fault)
  | .ok (.ok v) => (Document.design v top).mapError .document

/-- Reads the design of a path. -/
def loadFrom {m : Type → Type} [Monad m] (read : String → m Loaded) (path : String) (top : Value) :
    m (Noted SetupFault Design) := do
  let path := Path.plain path
  let opening := [Entry.info ("Loading netlist " ++ path)]
  match ofLoaded path top (← read path) with
  | .error fault => return ⟨opening, .error fault⟩
  | .ok d => return ⟨opening ++ [.info d.summary], .ok d⟩

/-- Reads the design of a path that is asked for, or else of the path of a configuration. -/
def load {m : Type → Type} [Monad m] (read : String → m Loaded) (c : Config) (asked : Value) :
    m (Noted SetupFault Design) :=
  match asked.orElse c.netlist with
  | .text path => if path.isEmpty then return ⟨[], .error .noNetlist⟩ else loadFrom read path c.top
  | v => return ⟨[], .error (if v.isTruthy then .pathNotText else .noNetlist)⟩

/-- Reads the design of a configuration and selects in it. -/
def ofConfig {m : Type → Type} [Monad m] (read : String → m Loaded) (c : Config) :
    m (Noted SetupFault Design) := do
  let loaded ← load read c .null
  return { loaded with outcome := loaded.outcome.map fun d =>
    if c.select.isEmpty then d else d.select c.select }

end Design

end NearestMux
