import NearestMux.CommandLine.Flag

/-!
# Arguments — what a command line asks for

The words of a command line are taken from the left. The first argument is the wire. A flag takes
its value and has its effect at once, so a later value of the same flag replaces an earlier one and
a help flag ends the reading where it stands, whatever comes behind it. Short flags in one word have
their effects together, after the whole word is understood.

What is neither is left over. Only when all words are taken it is asked whether the wire is there,
and then whether something is left.

The separator vanishes beside the wire; anywhere else it is left over itself. It vanishes too when
it is attached to a flag as its value, and the flag is then given without a value. That takes back a
path, a filter or a top that was given before. A token or a pattern that is given without a value is
kept as such, because it still stands in the place of what the configuration says.
-/

namespace NearestMux.CommandLine

/-- The value that a flag is given with; `none` when it is given without one. -/
abbrev FlagValue : Type := Option String

/-- The value that is attached to a flag. -/
def attachedValue (text : List Char) : FlagValue :=
  if text = ['-', '-'] then none else some (String.ofList text)

/-- What a command line asks for. -/
structure Arguments where
  /-- The wire. -/
  wire : String
  /-- The filter on modules. -/
  module : Option String
  /-- The path of the netlist. -/
  netlist : Option String
  /-- The path of the configuration. -/
  config : Option String
  /-- The patterns of the selection. -/
  select : List FlagValue
  /-- The name of the top. -/
  top : Option String
  /-- What marks the name of a reset, when the flag is given. -/
  resetToken : Option FlagValue
  /-- Whether the journal is shown. -/
  verbose : Bool
deriving DecidableEq

/-- Why a command line is not carried out. -/
inductive Stop where
  /-- The help text is asked for. -/
  | help
  /-- The command line is not understood. -/
  | usage (fault : UsageFault)
deriving DecidableEq

/-- What is known while words are taken. -/
structure Taking where
  /-- The wire, when it was met. -/
  wire : Option String
  /-- The arguments, with some wire. -/
  arguments : Arguments
  /-- What is left over. -/
  extras : List String

namespace Taking

/-- Nothing is taken. -/
def start : Taking := ⟨none, ⟨"", none, none, none, [], none, none, false⟩, []⟩

/-- The effect of a flag. -/
def effect (t : Taking) (flag : Flag) (value : FlagValue) : Except Stop Taking :=
  let a := t.arguments
  match flag with
  | .help => .error .help
  | .module => .ok { t with arguments := { a with module := value } }
  | .netlist => .ok { t with arguments := { a with netlist := value } }
  | .config => .ok { t with arguments := { a with config := value } }
  | .select => .ok { t with arguments := { a with select := a.select ++ [value] } }
  | .top => .ok { t with arguments := { a with top := value } }
  | .resetToken => .ok { t with arguments := { a with resetToken := some value } }
  | .verbose => .ok { t with arguments := { a with verbose := true } }

/-- The effects of flags, one after the other. -/
def effects (t : Taking) : List (Flag × FlagValue) → Except Stop Taking
  | [] => .ok t
  | (flag, value) :: rest => do effects (← t.effect flag value) rest

/-- Leaves words over. -/
def leave (t : Taking) (words : List String) : Taking := { t with extras := t.extras ++ words }

/-- Takes an argument: as the wire, or else it is left over. -/
def argument (t : Taking) (word : String) : Taking :=
  match t.wire with
  | none => { t with wire := some word }
  | some _ => t.leave [word]

end Taking

/-- What one word of flags comes to: flags with their values, and a last flag whose value is the
next word. -/
structure FlagWord where
  /-- The flags whose values are known. -/
  known : List (Flag × FlagValue)
  /-- The flag that waits for a value. -/
  waiting : Option Flag

/-- Reads the letters behind a short flag that takes no value: each names the next short flag, up to
one that takes a value. Its value is the rest of the word, or the next word when nothing is left. -/
def joinedFlags (before : List (Flag × FlagValue)) (flag : Flag) :
    List Char → Except UsageFault FlagWord
  | [] => .ok ⟨before ++ [(flag, none)], none⟩
  | letter :: rest =>
    let earlier := before ++ [(flag, none)]
    match Flag.ofName? (String.ofList ['-', letter]) with
    | none => .error (.valueIgnored flag (String.ofList (letter :: rest)))
    | some next =>
      if !next.takesValue then joinedFlags earlier next rest
      else if rest.isEmpty then .ok ⟨earlier, some next⟩
      else .ok ⟨earlier ++ [(next, attachedValue rest)], none⟩

/-- Reads a word of flags, from its first flag and what is attached to it. -/
def flagWord (flag : Flag) (short : Bool) : Option (List Char) → Except UsageFault FlagWord
  | none => .ok (if flag.takesValue then ⟨[], some flag⟩ else ⟨[(flag, none)], none⟩)
  | some text =>
    if flag.takesValue then .ok ⟨[(flag, attachedValue text)], none⟩
    else if short && !text.isEmpty then joinedFlags [] flag text
    else .error (.valueIgnored flag (String.ofList text))

/-- The words behind the last flag. The wire is taken from them when it is still missing, with the
separator that stands directly before or behind it. -/
def lastWords (t : Taking) (words : List (String × Word)) : Taking :=
  let texts := words.map Prod.fst
  match t.wire, words with
  | none, (_, .separator) :: (wire, _) :: rest =>
    { t with wire := some wire }.leave (rest.map Prod.fst)
  | none, (wire, .argument) :: (_, .separator) :: rest =>
    { t with wire := some wire }.leave (rest.map Prod.fst)
  | none, (wire, .argument) :: rest => { t with wire := some wire }.leave (rest.map Prod.fst)
  | _, _ => t.leave texts

/-- Whether a word names a flag or looks as if it did. -/
def Word.isFlag : Word → Bool
  | .flag _ _ _ => true
  | .unknown => true
  | _ => false

/-- Takes words from the left. -/
def takeWords : Nat → Taking → List (String × Word) → Except Stop Taking
  | 0, t, words => .ok (lastWords t words)
  | fuel + 1, t, words =>
    if !(words.any fun (_, kind) => kind.isFlag) then .ok (lastWords t words)
    else match words with
      | [] => .ok (lastWords t [])
      | (_, .flag flag short attached) :: rest =>
        match flagWord flag short attached with
        | .error fault => .error (.usage fault)
        | .ok ⟨known, none⟩ => do takeWords fuel (← t.effects known) rest
        | .ok ⟨known, some flag⟩ =>
          match rest with
          | (value, .argument) :: rest => do
            takeWords fuel (← t.effects (known ++ [(flag, some value)])) rest
          | _ => .error (.usage (.valueExpected flag))
      | (word, .unknown) :: rest => takeWords fuel (t.leave [word]) rest
      | (word, _) :: rest => takeWords fuel (t.argument word) rest

/-- What a command line asks for. -/
def Arguments.ofWords (words : List String) : Except Stop Arguments :=
  match Word.ofTexts words with
  | .error fault => .error (.usage fault)
  | .ok kinds => do
    let t ← takeWords kinds.length .start kinds
    match t.wire with
    | none => .error (.usage .wireRequired)
    | some wire =>
      if t.extras.isEmpty then return { t.arguments with wire := wire }
      else .error (.usage (.unrecognized t.extras))

end NearestMux.CommandLine
