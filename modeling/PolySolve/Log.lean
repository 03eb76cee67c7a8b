/-!
# Log entries

What the program reports about its work: a severity, the part of the program that speaks, and a
message. A reader sees the entries from a severity on.
-/

namespace PolySolve

inductive Severity where
  | debug
  | info
  | warning
  | error
  deriving DecidableEq

namespace Severity

def level : Severity → Nat
  | debug => 10
  | info => 20
  | warning => 30
  | error => 40

def name : Severity → List Char
  | debug => "DEBUG".toList
  | info => "INFO".toList
  | warning => "WARNING".toList
  | error => "ERROR".toList

end Severity

structure LogEntry where
  severity : Severity
  source : List Char
  message : List Char
  deriving DecidableEq

namespace LogEntry

/-- The entry on one line. -/
def line (e : LogEntry) : List Char := e.severity.name ++ ':' :: e.source ++ ':' :: e.message

end LogEntry

/-- The entries that are shown from a level on. -/
def shownFrom (level : Nat) (es : List LogEntry) : List LogEntry :=
  es.filter fun e => level ≤ e.severity.level

end PolySolve
