import PolySolve.Text.Quoted
import PolySolve.Text.Utf8

/-!
# Locations

Where a path leads to among the folders and files that there are, and why no file can be written
there.
-/

namespace PolySolve.CommandLine

open Text

/-- The names on the way to a file or folder, the innermost one first; the root has none. -/
abbrev Location := List (List Char)

namespace Location

/-- The location that a name in a path leads to. -/
def enter (here : Location) (name : List Char) : Location :=
  if name = [] ∨ name = ['.'] then here
  else if name = ['.', '.'] then here.drop 1
  else name :: here

/-- The path of a location from the root. -/
def path (l : Location) : List Char := l.reverse.flatMap ('/' :: ·)

end Location

/-- What can stand at a location. -/
inductive Entry where
  | folder
  | file
  deriving DecidableEq

/-- The folders and files that there are. -/
structure FileTree where
  /-- The folder that a path starts from unless it starts with a slash. -/
  current : Location
  entry : Location → Option Entry

/-- Why no file can be written under a path. -/
inductive PathFault where
  | nulCharacter
  | tooLong
  | missingFolder
  /-- A file stands where the path needs a folder. -/
  | notFolder
  /-- A folder stands where the file would be. -/
  | folder
  deriving DecidableEq

namespace PathFault

def message (path : List Char) : PathFault → List Char
  | nulCharacter => "embedded null byte".toList
  | tooLong => "[Errno 36] File name too long: ".toList ++ quote path
  | missingFolder => "[Errno 2] No such file or directory: ".toList ++ quote path
  | notFolder => "[Errno 20] Not a directory: ".toList ++ quote path
  | folder => "[Errno 21] Is a directory: ".toList ++ quote path

end PathFault

/-- How many bytes a path may have. -/
def maxPathLength : Nat := 4095

/-- How many bytes a name may have. -/
def maxNameLength : Nat := 255

/-- The names in a path. -/
def pathNames : List Char → List (List Char)
  | [] => [[]]
  | c :: cs =>
    if c = '/' then [] :: pathNames cs
    else
      match pathNames cs with
      | [] => [[c]]
      | n :: ns => (c :: n) :: ns

namespace FileTree

/-- The location that a path starts from. -/
def origin (t : FileTree) : List Char → Location
  | '/' :: _ => []
  | _ => t.current

/-- Follow names from a folder to a file that can be written. -/
def follow (t : FileTree) (here : Location) : List (List Char) → Except PathFault Location
  | [] => .error .folder
  | name :: rest =>
    let there := here.enter name
    if maxNameLength < (Utf8.encode name).length then .error .tooLong
    else if rest = [] then
      if t.entry there = some .folder then .error .folder else .ok there
    else
      match t.entry there with
      | some .folder => t.follow there rest
      | some .file => .error .notFolder
      | none => .error .missingFolder

/-- The location of the file that a path leads to. -/
def locate (t : FileTree) (path : List Char) : Except PathFault Location :=
  if path.contains '\x00' then .error .nulCharacter
  else if maxPathLength < (Utf8.encode path).length then .error .tooLong
  else t.follow (t.origin path) (pathNames path)

end FileTree

end PolySolve.CommandLine
