import NearestMux.Text.Quoted
import NearestMux.Yaml.Document

/-!
# Documents by path — what a folder answers

Netlists and configurations are documents in files. This module says what can come of asking for one
(`Loaded`), how a path is written down plainly, and what a folder of documents answers to a path.

A path is a row of names between slashes. An empty name and a single point add nothing. A name that
a file bears leads nowhere further, and a name that only begins the path of a file is a directory.
Names and paths are measured in bytes: a name has at most 255 of them and a path at most 4095. A
name is measured only where it is looked for, so what stands before it in the path is told first.

A folder is a stand-in for a place in a file system. Two points lead a step back, and above the
folder there are directories and nothing else: a path that leads out of it finds no file. A path
from the root finds the directories that every machine has, and the null device, which is an empty
file.
-/

namespace NearestMux

/-- Why no document is had from a path. -/
inductive FileFault where
  /-- There is no such file. -/
  | absent
  /-- A directory stands there. -/
  | isDirectory
  /-- The path leads on behind a file. -/
  | notDirectory
  /-- The file must not be read. -/
  | refused
  /-- The path or a name in it is too long. -/
  | tooLong
  /-- The text is no path: a null character is in it. -/
  | noPath
deriving DecidableEq

/-- The text of the fault, told with the path. -/
def FileFault.message (path : String) : FileFault → String
  | .absent => "[Errno 2] No such file or directory: " ++ Text.quoted path
  | .isDirectory => "[Errno 21] Is a directory: " ++ Text.quoted path
  | .notDirectory => "[Errno 20] Not a directory: " ++ Text.quoted path
  | .refused => "[Errno 13] Permission denied: " ++ Text.quoted path
  | .tooLong => "[Errno 36] File name too long: " ++ Text.quoted path
  | .noPath => "a path must not hold a null character"

/-- What comes of asking for the document of a path: a fault of the file, a fault of its text, or
the document's value. -/
abbrev Loaded : Type := Except FileFault (Except Yaml.Fault Value)

/-- What a file holds: a text, or the value that some text would have. -/
inductive FileContent where
  /-- A text. -/
  | text (source : String)
  /-- The value of a text that is not kept. -/
  | value (value : Value)

/-- The value of a file. -/
def FileContent.value? : FileContent → Except Yaml.Fault Value
  | .text source => Yaml.valueOf source
  | .value v => .ok v

namespace Path

/-- The most bytes of a name. -/
def nameLimit : Nat := 255

/-- The most bytes of a path. -/
def limit : Nat := 4095

/-- The names of a path. -/
def names (path : String) : List String :=
  (path.splitOn "/").filter fun name => name ≠ "" ∧ name ≠ "."

/-- The slashes that start a path. Two are kept; any other number is one. -/
def root (path : String) : String :=
  match path.toList with
  | '/' :: '/' :: '/' :: _ => "/"
  | '/' :: '/' :: _ => "//"
  | '/' :: _ => "/"
  | _ => ""

/-- A path written plainly: without empty names and single points. -/
def plain (path : String) : String :=
  let text := root path ++ String.intercalate "/" (names path)
  if text.isEmpty then "." else text

/-- Whether a path says that a directory is meant. -/
def wantsDirectory (path : String) : Bool :=
  match path.toList.reverse with
  | '/' :: _ => true
  | '.' :: '/' :: _ => true
  | _ => false

end Path

/-- Where a path leads. -/
inductive Place where
  /-- Along a row of names inside the folder. -/
  | inside (names : List String)
  /-- Along a row of names from the root. -/
  | fromRoot (names : List String)
  /-- To a directory above the folder. -/
  | above
  /-- To a name above the folder that nothing bears. -/
  | nowhere

namespace Place

/-- A step back; the root is its own step back. -/
def back : Place → Place
  | .inside [] => .above
  | .inside names => .inside names.dropLast
  | .fromRoot names => .fromRoot names.dropLast
  | place => place

/-- A step to a name. -/
def step (name : String) : Place → Place
  | .inside names => .inside (names ++ [name])
  | .fromRoot names => .fromRoot (names ++ [name])
  | _ => .nowhere

end Place

/-- What stands at a place. -/
inductive Standing where
  /-- A file. -/
  | file (content : FileContent)
  /-- A directory. -/
  | directory
  /-- Nothing. -/
  | nothing

/-- What stands at a row of names from the root. -/
def Standing.fromRoot (names : List String) : Standing :=
  match names with
  | [] => .directory
  | ["dev", "null"] => .file (.text "")
  | [name] =>
    if ["bin", "dev", "etc", "home", "lib", "proc", "root", "sbin", "tmp", "usr", "var"].contains
        name then .directory else .nothing
  | _ => .nothing

/-- Files by their paths. -/
structure Folder where
  /-- The paths and what the files hold; of two files with one path the later one counts. -/
  files : List (String × FileContent)

namespace Folder

/-- The file of a row of names. -/
def file? (f : Folder) (names : List String) : Option FileContent :=
  (f.files.reverse.find? fun (path, _) => Path.names path == names).map Prod.snd

/-- Whether a row of names is a directory. -/
def isDirectory (f : Folder) (names : List String) : Bool :=
  names.isEmpty || f.files.any fun (path, _) =>
    names.isPrefixOf (Path.names path) && Path.names path != names

/-- What stands at a place. -/
def standing (f : Folder) : Place → Standing
  | .inside names =>
    match f.file? names with
    | some content => .file content
    | none => if f.isDirectory names then .directory else .nothing
  | .fromRoot names => .fromRoot names
  | .above => .directory
  | .nowhere => .nothing

/-- The place that a name leads to. -/
def advance (f : Folder) (place : Place) (name : String) : Except FileFault Place :=
  match f.standing place with
  | .file _ => .error .notDirectory
  | .nothing => .error .absent
  | .directory =>
    if name = ".." then .ok place.back
    else if Path.nameLimit < name.utf8ByteSize then .error .tooLong
    else .ok (place.step name)

/-- The document at a place; `asDirectory` when the path says that a directory is meant. -/
def loadAt (f : Folder) (asDirectory : Bool) (place : Place) : Loaded :=
  match f.standing place with
  | .file content => if asDirectory then .error .notDirectory else .ok content.value?
  | .directory => .error .isDirectory
  | .nothing => .error .absent

/-- The document of a path. -/
def load (f : Folder) (path : String) : Loaded :=
  if path.toList.contains '\x00' then .error .noPath
  else if path.isEmpty then .error .absent
  else if Path.limit < path.utf8ByteSize then .error .tooLong
  else
    let start := if (Path.root path).isEmpty then Place.inside [] else .fromRoot []
    match (Path.names path).foldlM f.advance start with
    | .error fault => .error fault
    | .ok place => f.loadAt (Path.wantsDirectory path) place

end Folder

end NearestMux
