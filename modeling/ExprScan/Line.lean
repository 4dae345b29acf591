import ExprScan.Text.Bytes

/-! # Lines and columns

  A line runs up to and including its line feed; the last line may have
  none. An offset into a source lies on one line, at a column counted in
  bytes from its start. An offset past the end counts as the end, which is
  on an empty line of its own when the source ends with a line feed.
-/

namespace ExprScan

/-- Where an offset lies. -/
structure Line where
  /-- The line number, counted from 1. -/
  number : Nat
  /-- The text of the line with its line feed. -/
  text : List Char
  /-- The column in bytes, counted from 0. -/
  column : Nat
deriving DecidableEq, Repr

namespace Line

/-- Where an offset lies in a text whose first line has a given number. -/
def locateFrom (number : Nat) (text : List Char) (offset : Nat) : Line :=
  let body := text.takeWhile (· != '\n')
  match _h : text.dropWhile (· != '\n') with
  | [] => ⟨number, body, min offset (Text.byteLength body)⟩
  | feed :: rest =>
    let line := body ++ [feed]
    if offset < Text.byteLength line then ⟨number, line, offset⟩
    else locateFrom (number + 1) rest (offset - Text.byteLength line)
termination_by text.length
decreasing_by
  have := congrArg List.length (List.takeWhile_append_dropWhile (p := (· != '\n')) (l := text))
  simp only [_h, List.length_append, List.length_cons] at this
  omega

/-- Where an offset lies in a source. -/
def locate (source : String) (offset : Nat) : Line := locateFrom 1 source.toList offset

end Line

end ExprScan
