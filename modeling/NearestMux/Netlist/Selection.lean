import NearestMux.Identifier
import NearestMux.Text.Glob

/-!
# Selections — the part of a design that is looked at

A selection is all of a design, or whole modules and single members of modules. It is written as
patterns: `cpu*` selects the modules whose names it accepts, `cpu/alu_*` the cells and wires of
those modules whose names the second part accepts. Only the first slash separates; an empty second
part selects the whole module, and a second part that accepts nothing leaves the module out.

A pattern is held against a name twice: both without the mark of a public name, and both as they
stand. One of the two is enough.

No pattern at all selects everything. A pattern that accepts nothing selects nothing, which is not
the same.
-/

namespace NearestMux

/-- A part of a design, by names. -/
structure Selection where
  /-- Whether everything is selected. -/
  full : Bool
  /-- The modules that are selected whole. -/
  modules : List String
  /-- The selected members of other modules, by the module's name. -/
  members : List (String × List String)

namespace Selection

/-- Everything. -/
def everything : Selection := ⟨true, [], []⟩

/-- Nothing. -/
def nothing : Selection := ⟨false, [], []⟩

/-- The selected members of a module. -/
def membersOf (s : Selection) (module : String) : List String :=
  (s.members.lookup module).getD []

/-- Whether a module is selected, whole or in part. -/
def hasModule (s : Selection) (module : String) : Bool :=
  s.full || s.modules.contains module || !(s.membersOf module).isEmpty

/-- Whether a member of a module is selected. -/
def hasMember (s : Selection) (module member : String) : Bool :=
  s.full || s.modules.contains module || (s.membersOf module).contains member

theorem hasModule_of_hasMember {s : Selection} {module member : String}
    (isSelected : s.hasMember module member = true) : s.hasModule module = true := by
  simp only [hasMember, hasModule, Bool.or_eq_true, Bool.not_eq_true', List.contains_iff_mem] at *
  refine isSelected.imp_right fun isMember => ?_
  exact List.isEmpty_eq_false_iff.mpr (List.ne_nil_of_mem isMember)

/-- Selects a module whole. -/
def addModule (s : Selection) (module : String) : Selection :=
  { s with modules := s.modules.insert module }

/-- The members of a table with more of them under one name. -/
def withMembers (module : String) (names : List String) :
    List (String × List String) → List (String × List String)
  | [] => [(module, names.eraseDups)]
  | (m, old) :: rest =>
    if m = module then (m, (old ++ names).eraseDups) :: rest
    else (m, old) :: withMembers module names rest

/-- Selects members of a module; no members change nothing. -/
def addMembers (s : Selection) (module : String) (names : List String) : Selection :=
  if names.isEmpty then s else { s with members := withMembers module names s.members }

/-- Whether a pattern accepts a name, without the marks of public names or as they stand. -/
def accepts (pattern name : String) : Bool :=
  Text.globAccepts (Identifier.unescape pattern) (Identifier.unescape name) ||
    Text.globAccepts pattern name

/-- The two parts of a pattern: up to the first slash, and behind it. -/
def splitPattern (pattern : String) : String × String :=
  let cs := pattern.toList
  (String.ofList (cs.takeWhile (· ≠ '/')), String.ofList ((cs.dropWhile (· ≠ '/')).drop 1))

/-- What a pattern selects in one module, given the names of its cells and wires. -/
def addPatternIn (modulePattern memberPattern : String) (s : Selection)
    (module : String × List String) : Selection :=
  if accepts modulePattern module.1 then
    if memberPattern.isEmpty then s.addModule module.1
    else s.addMembers module.1 (module.2.filter (accepts memberPattern))
  else s

/-- What a pattern selects, added to a selection. -/
def addPattern (modules : List (String × List String)) (s : Selection) (pattern : String) :
    Selection :=
  let (modulePattern, memberPattern) := splitPattern pattern
  modules.foldl (addPatternIn modulePattern memberPattern) s

/-- The selection that patterns write, over modules given with the names of their cells and wires.
-/
def ofPatterns (modules : List (String × List String)) (patterns : List String) : Selection :=
  if patterns.isEmpty then everything else patterns.foldl (addPattern modules) nothing

end Selection

end NearestMux
