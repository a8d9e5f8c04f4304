import NearestMux.Text.Decimal
import NearestMux.Text.Quoted

/-!
# Flags — how the words of a command line read

A command line is a row of words. A word that starts with a hyphen names a flag, unless it is a
hyphen alone, looks like a negative number, or is no flag's name and holds a space; every other word
is an argument. Two hyphens alone are a separator, behind which every word is an argument.

A flag may be named in several ways. A long name may be cut short as long as it stays the beginning
of one long name only. Its value follows as the next word, or behind an equals sign in the same
word. A short name may have its value right behind it, with or without the equals sign, and short
flags that take no value may be written together in one word.

A word that names no flag is no fault by itself: it is left over, and left over words are reported
together at the end.
-/

namespace NearestMux.CommandLine

/-- The flags. -/
inductive Flag where
  /-- Shows a help text. -/
  | help
  /-- The filter on modules. -/
  | module
  /-- The path of the netlist. -/
  | netlist
  /-- The path of the configuration. -/
  | config
  /-- A pattern of the selection. -/
  | select
  /-- The name of the top. -/
  | top
  /-- What marks the name of a reset. -/
  | resetToken
  /-- Shows the journal. -/
  | verbose
deriving DecidableEq

namespace Flag

/-- The flags in the order in which they are listed. -/
def all : List Flag := [.help, .module, .netlist, .config, .select, .top, .resetToken, .verbose]

/-- The names of a flag, the short one first. -/
def names : Flag → List String
  | .help => ["-h", "--help"]
  | .module => ["-m", "--module"]
  | .netlist => ["-n", "--netlist"]
  | .config => ["-c", "--config"]
  | .select => ["-s", "--select"]
  | .top => ["--top"]
  | .resetToken => ["--reset-token"]
  | .verbose => ["-v", "--verbose"]

/-- Whether a flag takes a value. -/
def takesValue : Flag → Bool
  | .help => false
  | .verbose => false
  | _ => true

/-- All names with their flags, in order. -/
def table : List (String × Flag) := all.flatMap fun flag => flag.names.map fun name => (name, flag)

/-- The flag of a name. -/
def ofName? (name : String) : Option Flag := table.lookup name

/-- The name of a flag in a message: all its names. -/
def title (flag : Flag) : String := String.intercalate "/" flag.names

end Flag

/-- What a word of a command line is. -/
inductive Word where
  /-- An argument. -/
  | argument
  /-- The separator. -/
  | separator
  /-- A flag, whether it is named by a short name, and what is attached to the name. -/
  | flag (flag : Flag) (short : Bool) (attached : Option (List Char))
  /-- The name of no flag. -/
  | unknown
deriving DecidableEq

/-- Why a command line is not understood. -/
inductive UsageFault where
  /-- A name is the beginning of several names. -/
  | ambiguous (word : String) (names : List String)
  /-- The value of a flag is missing. -/
  | valueExpected (flag : Flag)
  /-- A flag that takes no value has one. -/
  | valueIgnored (flag : Flag) (text : String)
  /-- The wire is missing. -/
  | wireRequired
  /-- Words are left over. -/
  | unrecognized (words : List String)
  /-- Neither the command line nor the configuration names a netlist. -/
  | netlistRequired
deriving DecidableEq

/-- The text of the fault. -/
def UsageFault.message : UsageFault → String
  | .ambiguous word names =>
    "ambiguous option: " ++ word ++ " could match " ++ String.intercalate ", " names
  | .valueExpected flag => "argument " ++ flag.title ++ ": expected one argument"
  | .valueIgnored flag text =>
    "argument " ++ flag.title ++ ": ignored explicit argument " ++ Text.quoted text
  | .wireRequired => "the following arguments are required: wire"
  | .unrecognized words => "unrecognized arguments: " ++ String.intercalate " " words
  | .netlistRequired => "a netlist is required (--netlist or netlist.path in --config)"

namespace Word

/-- A word without the line break at its end. -/
def withoutLineBreak (cs : List Char) : List Char :=
  if cs.getLast? = some '\n' then cs.dropLast else cs

/-- Whether digits, perhaps with a point among or before them, follow a hyphen. A line break at the
end is overlooked. -/
def isNegativeNumber (cs : List Char) : Bool :=
  match withoutLineBreak cs with
  | '-' :: rest =>
    match rest.dropWhile Text.isDecimal with
    | [] => !rest.isEmpty
    | '.' :: fraction => !fraction.isEmpty && fraction.all Text.isDecimal
    | _ => false
  | _ => false

/-- A word up to its first equals sign, and the value behind it. -/
def splitValue (cs : List Char) : List Char × Option (List Char) :=
  match cs.dropWhile (· ≠ '=') with
  | [] => (cs, none)
  | _ :: value => (cs.takeWhile (· ≠ '='), some value)

/-- The readings of a word as a name cut short or as a short name with its value behind it, each
with the full name. -/
def readings (cs : List Char) : List (String × Word) :=
  match cs with
  | '-' :: '-' :: _ =>
    let (start, attached) := splitValue cs
    Flag.table.filterMap fun (name, named) =>
      if start.isPrefixOf name.toList then some (name, .flag named false attached) else none
  | _ =>
    Flag.table.filterMap fun (name, named) =>
      if name.toList = cs.take 2 then some (name, .flag named true (some (cs.drop 2))) else none

/-- Whether a name is a short one: a hyphen and a letter. -/
def isShort (name : String) : Bool := name.toList.length == 2

/-- What a word is that starts with a hyphen and is no flag's full name. -/
def ofHyphened (word : String) : Except UsageFault Word :=
  let cs := word.toList
  match readings cs with
  | [(_, reading)] => .ok reading
  | [] =>
    if isNegativeNumber cs || cs.contains ' ' then .ok .argument else .ok .unknown
  | several => .error (.ambiguous word (several.map Prod.fst))

/-- What a word is. -/
def ofText (word : String) : Except UsageFault Word :=
  match word.toList with
  | [] => .ok .argument
  | '-' :: rest =>
    match Flag.ofName? word with
    | some named => .ok (.flag named (isShort word) none)
    | none =>
      if rest.isEmpty then .ok .argument
      else
        let (name, attached) := splitValue word.toList
        match Flag.ofName? (String.ofList name), attached with
        | some named, some _ => .ok (.flag named (isShort (String.ofList name)) attached)
        | _, _ => ofHyphened word
  | _ => .ok .argument

/-- What the words of a command line are. -/
def ofTexts : List String → Except UsageFault (List (String × Word))
  | [] => .ok []
  | "--" :: rest => .ok (("--", .separator) :: rest.map fun word => (word, .argument))
  | word :: rest =>
    match ofText word with
    | .error fault => .error fault
    | .ok kind => (ofTexts rest).map ((word, kind) :: ·)

end Word

end NearestMux.CommandLine
