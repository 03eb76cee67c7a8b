import PolySolve.Store.File

/-!
# Using the store

Reading and changing the settings and the history in the store. Each use reads the file anew, so
a warning comes once for each reading; a fault ends the use and leaves the file as it then is.
-/

namespace PolySolve

open Text

/-- The file of the store, and the warnings so far, the oldest first. -/
structure StoreState where
  file : StoreFile
  warnings : List StoreWarning

/-- A use of the store. -/
abbrev StoreAccess := ExceptT StoreFault (StateM StoreState)

namespace StoreAccess

/-- Use the store in a file. -/
def runOn (file : StoreFile) (use : StoreAccess α) : Except StoreFault α × StoreState :=
  (ExceptT.run use).run ⟨file, []⟩

end StoreAccess

/-- A solved equation in the history. The equation and its answer can be values of any kind; those
that runs of the program keep are texts. -/
structure Record where
  id : List Char
  equation : Json
  answer : Json
  timestamp : List Char
  /-- Seconds since 1970. -/
  epoch : Binary64

namespace Record

/-- How many hexadecimal digits a random token has. -/
def tokenLength : Nat := 32

/-- How many of them make up an id. -/
def idLength : Nat := 12

/-- When a record is made, and the random token for its id. -/
structure Stamp where
  token : Nat
  timestamp : List Char
  epoch : Binary64
  deriving DecidableEq

def stamped (s : Stamp) (equation answer : Json) : Record :=
  ⟨(hexChars tokenLength s.token).take idLength, equation, answer, s.timestamp, s.epoch⟩

def toJson (r : Record) : Json := .object [
  (codePoints "id".toList, .text r.id),
  (codePoints "equation".toList, r.equation),
  (codePoints "answer".toList, r.answer),
  (codePoints "timestamp".toList, .text r.timestamp),
  (codePoints "epoch".toList, .float r.epoch)]

end Record

namespace Store

/-- How many records the history keeps. -/
def historyLimit : Nat := 200

/-- The settings in some contents, over the default ones. -/
def settingsOf (contents : Json.Members) : Json.Members :=
  match contents.lookup settingsName with
  | some (.object ms) => defaultSettings.override ms
  | _ => defaultSettings

/-- The records in some contents, the newest first. -/
def historyOf (contents : Json.Members) : List Json :=
  match contents.lookup historyName with
  | some (.array records) => records
  | _ => []

/-- The members that name a setting. -/
def known (ms : Json.Members) : Json.Members :=
  ms.filter fun (name, _) => (defaultSettings.lookup name).isSome

/-- A history with a new entry in front. -/
def front (entry : Json) (records : List Json) : List Json :=
  (entry :: records).take historyLimit

/-! ## Uses -/

def save (contents : Json.Members) : StoreAccess Unit := do
  let s ← get
  let (file, fault?) := s.file.write contents
  set { s with file }
  match fault? with
  | some f => throw f
  | none => return

section

variable (depth : StoreDepth)

def load : StoreAccess Json.Members := do
  let s ← get
  match s.file.read depth with
  | .error f => throw f
  | .ok loaded =>
    set { s with warnings := s.warnings ++ loaded.warning.toList }
    return loaded.members

/-- The settings, over the default ones. -/
def settings : StoreAccess Json.Members := return settingsOf (← load depth)

/-- The records of the history, the newest first. -/
def history : StoreAccess (List Json) := return historyOf (← load depth)

/-- Change the known settings among some members. -/
def saveSettings (changes : Json.Members) : StoreAccess Unit := do
  let contents ← load depth
  let current ← settings depth
  save (contents.put settingsName (.object (current.override (known changes))))

/-- Put an entry in front of the history. -/
def addEntry (entry : Json) : StoreAccess Unit := do
  let contents ← load depth
  let records ← history depth
  save (contents.put historyName (.array (front entry records)))

def addRecord (r : Record) : StoreAccess Unit := addEntry depth r.toJson

def clearHistory : StoreAccess Unit := do
  let contents ← load depth
  save (contents.put historyName (.array []))

end

end Store

end PolySolve
