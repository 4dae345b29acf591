import ExprScan.Item

/-! # The log of a scan

  While it scans, a lexer records each item that it passes, and once the end
  of its source, with its counts.
-/

namespace ExprScan

/-- An entry of the log. -/
inductive Event where
  /-- A token was passed. -/
  | token (kind : Kind) (line : UInt32)
  /-- An illegal character was passed. -/
  | illegal (character : Char) (line : UInt32)
  /-- The end of the source was reached for the first time. -/
  | finished (tokens errors : Nat) (lines : UInt32)
deriving DecidableEq

/-- How much an entry matters. -/
inductive Level where
  | trace
  | debug
  | warn
deriving DecidableEq, Repr

/-- The name of a level. -/
def Level.name : Level → String
  | trace => "TRACE"
  | debug => "DEBUG"
  | warn => "WARN"

namespace Event

/-- The entry for an item. -/
def ofItem : Item → Event
  | .token t => .token t.kind t.line
  | .illegal report => .illegal report.character report.position.line

/-- How much an entry matters. -/
def level : Event → Level
  | .token .. => .trace
  | .illegal .. => .warn
  | .finished .. => .debug

/-- The message of an entry. -/
def message : Event → String
  | .token .. => "token"
  | .illegal character _ => Illegal.messageOf character
  | .finished .. => "scan finished"

/-- The named values of an entry, as text. -/
def fields : Event → List (String × String)
  | .token kind line => [("kind", kind.name), ("line", toString line.toNat)]
  | .illegal _ line => [("line", toString line.toNat)]
  | .finished tokens errors lines =>
    [("tokens", toString tokens), ("errors", toString errors),
     ("lines", toString lines.toNat)]

end Event

end ExprScan
