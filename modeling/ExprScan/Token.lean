import ExprScan.Position
import ExprScan.Text.Bytes
import ExprScan.Value

/-! # Tokens

  A token is a piece of the source with a meaning: its kind and value, the
  line it starts on, and the bytes it covers. Its text is not stored; it is
  cut from the source again when it is asked for.
-/

namespace ExprScan

/-- A token of the language. -/
structure Token where
  kind : Kind
  value : Value
  /-- The line on which the token starts. -/
  line : UInt32
  span : Span
deriving DecidableEq

/-- The range of bytes in full. -/
def Span.debug (span : Span) : String :=
  Text.record "Span" [("start", toString span.start), ("end", toString span.stop)]

namespace Token

/-- The text of a token, cut from the source it was scanned from. -/
def lexeme (token : Token) (source : String) : Except Fault String :=
  return String.ofList (← Text.slice source.toList token.span.start token.span.stop)

/-- Whether a token is a literal of the language. -/
def isLiteral (token : Token) : Bool := token.kind.isLiteral

/-- Equality of tokens, with values compared as numbers and texts. -/
def same (first second : Token) : Bool :=
  first.kind = second.kind && first.value.same second.value &&
    first.line = second.line && first.span = second.span

/-- A token on a line of its own: kind, value if it has one, and line. -/
def display (token : Token) : String :=
  let meaning := match token.value with
    | .absent => token.kind.name
    | value => Text.wrapped token.kind.name value.display
  meaning ++ " (line " ++ toString token.line.toNat ++ ")"

/-- A token in full. -/
def debug (token : Token) : String :=
  Text.record "Token"
    [("kind", token.kind.name), ("value", token.value.debug),
     ("line", toString token.line.toNat), ("span", token.span.debug)]

end Token

end ExprScan
