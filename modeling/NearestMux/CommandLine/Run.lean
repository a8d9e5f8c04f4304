import NearestMux.CommandLine.Arguments
import NearestMux.Setup

/-!
# The command — from words to lines

The command reads its configuration if one is named, lets the command line speak before it, loads
the netlist, and asks for the multiplexer of the wire. It prints two lines with the answer, or one
line with a fault. The journal goes to the other channel: warnings always, everything when asked.

A fault of the documents, of the configuration or of the query is reported and ends the command with
status one; a command line that is not understood ends it with status two. What is left is a value
of a wrong kind in a document, a module that is declared twice, and a flag that is given without the
value that is wanted in the end. The command has no line for these; they break it off
(`CommandOutcome.broken`).

A pattern without a text is wanted as soon as there is a design to select in. A reset token without
a text is wanted only when a query comes to a select that could be a reset.
-/

namespace NearestMux

/-- Why the command breaks off. -/
inductive Breakage where
  /-- While it was set up. -/
  | setup (fault : SetupFault)
  /-- While it searched. -/
  | search (fault : SearchFault)
  /-- A pattern of the selection has no text. -/
  | patternMissing
  /-- A select is to be told from a reset, and the token that marks resets has no text. -/
  | tokenMissing

/-- What becomes of a command. -/
inductive CommandOutcome where
  /-- It ends before it begins: with a status, and a line unless help was asked for. -/
  | usage (status : Nat) (line : Option String)
  /-- It ends with a status, lines of output, and lines beside the output. -/
  | done (status : Nat) (output aside : List String)
  /-- It breaks off. -/
  | broken (cause : Breakage)

namespace CommandLine

/-- The name of the command. -/
def commandName : String := "rtl-muxtrace"

/-- A configuration with what the command line says in its place. An empty text says nothing, except
as a reset token. -/
def Arguments.override (a : Arguments) (c : Config) : Config where
  netlist := (a.netlist.filter (!·.isEmpty)).elim c.netlist .text
  top := (a.top.filter (!·.isEmpty)).elim c.top .text
  select := if a.select.isEmpty then c.select else a.select.filterMap id
  resetToken := (a.resetToken.map (·.getD "")).getD c.resetToken
  muxTypes := c.muxTypes

/-- The lines that a journal shows. -/
def shown (verbose : Bool) (journal : List Entry) : List String :=
  (journal.filter fun e => verbose || e.level == .warning).map fun e =>
    e.level.word ++ " - " ++ e.text

/-- Whether a fault of the setting up is reported, with its text, or breaks the command off. -/
def reported? : SetupFault → Option String
  | .pathNotText => none
  | .valueless _ => none
  | .document (.declaration _) => none
  | .document (.kind _) => none
  | .file _ .noPath => none
  | .numberTooLong => none
  | fault => some fault.message

/-- The end of a command whose setting up failed. -/
def endSetup (aside : List String) (fault : SetupFault) : CommandOutcome :=
  match reported? fault with
  | some text => .done 1 [] (aside ++ ["[ERROR] " ++ text])
  | none => .broken (.setup fault)

/-- The end of a command with a query. -/
def endQuery (verbose : Bool) (aside : List String) (reply : Query.Reply) : CommandOutcome :=
  let aside := aside ++ shown verbose reply.journal
  match reply.outcome with
  | .ok answer => .done 0 ["Mux select: " ++ answer.select, "Module: " ++ answer.module] aside
  | .error (.query fault) => .done 1 [] (aside ++ ["[ERROR] " ++ fault.message])
  | .error (.astray fault) => .broken (.search fault)

/-- The line about a command line that is not understood. -/
def usageLine (fault : UsageFault) : String := commandName ++ ": error: " ++ fault.message

/-- The query of a command line. -/
def Arguments.query (a : Arguments) : Query := ⟨a.wire, a.module.getD ""⟩

/-- The end of a command that has loaded its design. A token without a text reads as the empty one,
which makes a reset of every select that is met; so a search with it meets a reset exactly when the
missing token is wanted. -/
def Arguments.endLoaded (a : Arguments) (aside : List String) (c : Config) (d : Design) :
    CommandOutcome :=
  if a.select.contains none then .broken .patternMissing
  else if a.resetToken = some none && a.query.meetsReset d c.rule then .broken .tokenMissing
  else endQuery a.verbose aside (a.query.answer d c.rule)

/-- Carries out what is asked for with a configuration. -/
def Arguments.carryOut {m : Type → Type} [Monad m] (read : String → m Loaded) (a : Arguments)
    (c : Config) : m CommandOutcome := do
  let c := a.override c
  if c.netlist.isTruthy then
    let loaded ← Design.ofConfig read c
    let aside := shown a.verbose loaded.journal
    match loaded.outcome with
    | .error fault => return endSetup aside fault
    | .ok d => return a.endLoaded aside c d
  else return .usage 2 (some (usageLine .netlistRequired))

/-- Runs the command on the words of a command line. -/
def run {m : Type → Type} [Monad m] (read : String → m Loaded) (words : List String) :
    m CommandOutcome := do
  match Arguments.ofWords words with
  | .error .help => return .usage 0 none
  | .error (.usage fault) => return .usage 2 (some (usageLine fault))
  | .ok a =>
    match a.config.filter (!·.isEmpty) with
    | none => a.carryOut read .default
    | some path =>
      match ← Config.load read path with
      | .error fault => return endSetup [] fault
      | .ok c => a.carryOut read c

end CommandLine

end NearestMux
