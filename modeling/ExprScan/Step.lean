import ExprScan.Illegal
import ExprScan.Piece
import ExprScan.Token

/-! # Scanning by steps

  A step looks at a source from a cursor and says what stands there: a
  token, an illegal character, blanks or line breaks. It also returns the
  cursor behind it. A step depends on the source and the cursor alone, so
  scanning can be resumed anywhere.

  Only line breaks move the line number. The length of a run of them is kept
  in 32 bits, and a line number that would leave 32 bits is a fault.
-/

namespace ExprScan

/-- What a single step finds. -/
inductive Scanned where
  | token (token : Token)
  | illegal (illegal : Illegal)
  /-- A run of blanks. -/
  | blank
  /-- A run of line breaks and its length in 32 bits. -/
  | lineBreaks (count : UInt32)
deriving DecidableEq

/-- What a step finds, and the cursor behind it. -/
structure Step where
  scanned : Scanned
  next : Position
deriving DecidableEq

/-- The line number a number of lines further on. -/
def addLines (line count : UInt32) : Except Fault UInt32 :=
  if line.toNat + count.toNat < UInt32.size then .ok (line + count) else .error .lineOverflow

/-- The step over a piece that stands at a cursor. -/
def Piece.step (piece : Piece) (pos : Position) : Except Fault Step :=
  let next := pos.skip (Text.byteLength piece.text)
  match piece.category with
  | .blank => .ok ⟨.blank, next⟩
  | .lineBreaks => do
    let count := UInt32.ofNat piece.text.length
    let line ← addLines pos.line count
    return ⟨.lineBreaks count, { next with line := line }⟩
  | .token kind =>
    .ok ⟨.token ⟨kind, kind.valueOf piece.text, pos.line, ⟨pos.offset, next.offset⟩⟩, next⟩
  | .illegal character => .ok ⟨.illegal ⟨character, pos⟩, next⟩

/-- One step of scanning a source from a cursor; none at the end. -/
def step (source : String) (pos : Position) : Except Fault (Option Step) := do
  match Piece.first? (← Text.dropBytes pos.offset source.toList) with
  | none => return none
  | some piece => return some (← piece.step pos)

/-- The outcomes of scanning on from a cursor, up to a number of steps. The
    end of the source and a fault are outcomes too, and the last ones. -/
def steps (source : String) (pos : Position) : Nat → List (Except Fault (Option Step))
  | 0 => []
  | limit + 1 =>
    match step source pos with
    | .ok (some found) => .ok (some found) :: steps source found.next limit
    | last => [last]

end ExprScan
