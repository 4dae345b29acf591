import ExprScan.Step

/-! # Items

  An item is what a reader of a source is told about: a token, or an illegal
  character reported in its place. Blanks and line breaks are no items.
-/

namespace ExprScan

/-- A token, or an illegal character in its place. -/
inductive Item where
  | token (token : Token)
  | illegal (illegal : Illegal)
deriving DecidableEq

/-- The item that a step found, if it found one. -/
def Scanned.item? : Scanned → Option Item
  | .token t => some (.token t)
  | .illegal report => some (.illegal report)
  | .blank | .lineBreaks _ => none

namespace Item

/-- The token of an item. -/
def token? : Item → Option Token
  | .token t => some t
  | .illegal _ => none

/-- The report of an item. -/
def illegal? : Item → Option Illegal
  | .token _ => none
  | .illegal report => some report

/-- Whether an item is a comment. -/
def isComment : Item → Bool
  | .token t => t.kind = .comment
  | .illegal _ => false

/-- The line on which an item starts. -/
def line : Item → UInt32
  | .token t => t.line
  | .illegal report => report.position.line

end Item

end ExprScan
