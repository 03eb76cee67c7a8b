import PolySolve.Json.Reader
import PolySolve.Json.Writer
import PolySolve.Text.LineEnd
import PolySolve.Text.Utf8

/-!
# The file of the store

The store is one JSON object in a UTF-8 file. A missing file, a text that is not JSON, a JSON value
that is not an object and a folder in the file's place stand for the default contents, the last
three with a warning. Bytes that are not UTF-8, integers that are too long and containers
that are too deep within others are faults. How deep a reader goes is not the same everywhere, so it
is a parameter, `StoreDepth`.

Writing replaces the file. A string that has no UTF-8 form stops the writing; what comes before it
is then in the file.

* `read_absent`: a missing file stands for the default contents, without a warning.
-/

namespace PolySolve

open Text

/-- What stands in the place of the store. -/
inductive StoreFile where
  | absent
  | bytes (content : List UInt8)
  | folder
  deriving DecidableEq

/-- How many containers within each other are read in a store: at least three, which is what a store
with a record in its history has. -/
structure StoreDepth where
  levels : Nat
  three_le : 3 ≤ levels

/-- What the program usually has room for. -/
def StoreDepth.usual : StoreDepth := ⟨985, by decide⟩

/-- Why the store can be neither read nor taken for the default one, or not be written. -/
inductive StoreFault where
  | undecodable (f : Utf8.DecodeFault)
  | longInteger (digits : Nat)
  | tooDeep (container : Json.Container)
  | unencodable (f : Utf8.EncodeFault)
  | folder
  deriving DecidableEq

namespace StoreFault

def message : StoreFault → List Char
  | undecodable f => f.message
  | longInteger digits => (Json.ReadFault.longInteger digits).message
  | tooDeep container => (Json.ReadFault.tooDeep container).message
  | unencodable f => f.message
  | folder => "Is a directory".toList

end StoreFault

/-- Why the store is taken for the default one. -/
inductive StoreWarning where
  | malformed (problem : Json.Problem) (position : Json.Position)
  | folder
  | notObject
  deriving DecidableEq

namespace StoreWarning

/-- The message about the store at a path. -/
def message (path : List Char) : StoreWarning → List Char
  | malformed problem position =>
    "ignoring unreadable store ".toList ++ path ++ ": ".toList ++
      (Json.ReadFault.malformed problem position).message
  | folder =>
    "ignoring unreadable store ".toList ++ path ++ ": [Errno 21] Is a directory: ".toList ++
      quote path
  | notObject => "ignoring store ".toList ++ path ++ ": not a JSON object".toList

end StoreWarning

/-- The contents of the store, and the warning with which they were read. -/
structure Loaded where
  members : Json.Members
  warning : Option StoreWarning

namespace Store

def settingsName : List CodePoint := codePoints "settings".toList

def historyName : List CodePoint := codePoints "history".toList

def defaultSettings : Json.Members := [
  (codePoints "log_level".toList, .text "WARNING".toList),
  (codePoints "save_history".toList, .bool true),
  (codePoints "plot_window".toList, .float 5)]

/-- The contents of a store that holds nothing. -/
def initial : Json.Members := [(settingsName, .object defaultSettings), (historyName, .array [])]

end Store

namespace StoreFile

/-- The contents that the text of a file stands for. -/
def readText (depth : StoreDepth) (cs : List Char) : Except StoreFault Loaded :=
  match Json.ofText depth.levels (unifyLineEnds cs) with
  | .ok (.object ms) => .ok ⟨ms, none⟩
  | .ok _ => .ok ⟨Store.initial, some .notObject⟩
  | .error (.malformed problem position) =>
    .ok ⟨Store.initial, some (.malformed problem position)⟩
  | .error (.longInteger digits) => .error (.longInteger digits)
  | .error (.tooDeep container) => .error (.tooDeep container)

def read (depth : StoreDepth) : StoreFile → Except StoreFault Loaded
  | absent => .ok ⟨Store.initial, none⟩
  | folder => .ok ⟨Store.initial, some .folder⟩
  | bytes content =>
    match Utf8.decode content with
    | .ok cs => readText depth cs
    | .error f => .error (.undecodable f)

theorem read_absent (depth : StoreDepth) : absent.read depth = .ok ⟨Store.initial, none⟩ := rfl

/-- The bytes of the pieces before the first one that has none, and why that one has none. -/
def encodePieces : List (List CodePoint) → List UInt8 × Option Utf8.EncodeFault
  | [] => ([], none)
  | p :: ps =>
    match Utf8.encode? p with
    | .ok bs => (bs ++ (encodePieces ps).1, (encodePieces ps).2)
    | .error f => ([], some f)

/-- The file after its contents are replaced, and what went wrong. -/
def write (ms : Json.Members) : StoreFile → StoreFile × Option StoreFault
  | folder => (folder, some .folder)
  | _ =>
    let (bs, f) := encodePieces (Json.pieces .indented 0 (.object ms))
    (bytes bs, f.map .unencodable)

end StoreFile

end PolySolve
