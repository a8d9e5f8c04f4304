/-!
# The journal — what a query notes on its way

A query answers with a name; how it came by it is told in a journal, one line an entry. Every
computation that has something to note returns its entries beside its result, so the journal of a
query is a value like any other and is there also when the query fails.
-/

namespace NearestMux

/-- How much an entry matters. -/
inductive Level where
  /-- A step on the way. -/
  | debug
  /-- A stage of the work. -/
  | info
  /-- Something that may not be meant. -/
  | warning
deriving DecidableEq

/-- The word for a level. -/
def Level.word : Level → String
  | .debug => "DEBUG"
  | .info => "INFO"
  | .warning => "WARNING"

/-- One line of a journal. -/
structure Entry where
  /-- How much it matters. -/
  level : Level
  /-- What it says. -/
  text : String
deriving DecidableEq

namespace Entry

/-- An entry about a step. -/
def debug (text : String) : Entry := ⟨.debug, text⟩

/-- An entry about a stage. -/
def info (text : String) : Entry := ⟨.info, text⟩

/-- A warning. -/
def warning (text : String) : Entry := ⟨.warning, text⟩

end Entry

end NearestMux
