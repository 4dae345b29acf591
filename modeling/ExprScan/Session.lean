import ExprScan.Lexer

/-! # Sessions

  A session drives one lexer and keeps a stack of earlier states of it to go
  back to. Reading ahead without comments works on a copy, so it leaves the
  lexer where it is.
-/

namespace ExprScan

/-- What can be asked of a session. -/
inductive Operation where
  /-- The next item. -/
  | next
  /-- All items that are left. -/
  | rest
  /-- All items that are left but the comments, without moving on. -/
  | withoutComments
  /-- Keep the present state. -/
  | save
  /-- Go back to the state that was kept last. -/
  | restore
  /-- Show the lexer in full. -/
  | debug
deriving DecidableEq, Repr

/-- A lexer and the states kept of it, the last one first. -/
structure Session where
  lexer : Lexer
  saved : List Lexer
deriving DecidableEq

/-- What an operation answers. -/
inductive Answer where
  | item (item : Option Item)
  | items (items : List Item)
  /-- How many states are kept. -/
  | depth (count : Nat)
  /-- There was no state to go back to. -/
  | nothingSaved
  | text (text : String)
deriving DecidableEq

/-- The outcome of an operation. -/
structure Outcome where
  answer : Answer
  session : Session
  events : List Event
deriving DecidableEq

namespace Session

/-- A session at the start of a source. -/
def ofSource (source : String) : Session := ⟨.ofSource source, []⟩

/-- Carries out one operation. -/
def perform (session : Session) : Operation → Except Fault Outcome
  | .next => do
    let reading ← session.lexer.next
    return ⟨.item reading.item, { session with lexer := reading.lexer }, reading.events⟩
  | .rest => do
    let drained ← session.lexer.drain
    return ⟨.items drained.items, { session with lexer := drained.lexer }, drained.events⟩
  | .withoutComments => do
    let (items, events) ← session.lexer.withoutComments
    return ⟨.items items, session, events⟩
  | .save =>
    let saved := session.lexer :: session.saved
    return ⟨.depth saved.length, { session with saved := saved }, []⟩
  | .restore =>
    match session.saved with
    | [] => return ⟨.nothingSaved, session, []⟩
    | lexer :: saved => return ⟨.depth saved.length, ⟨lexer, saved⟩, []⟩
  | .debug => return ⟨.text session.lexer.debug, session, []⟩

/-- Carries out operations one after the other. -/
def run (session : Session) : List Operation → Except Fault (List Outcome)
  | [] => return []
  | operation :: more => do
    let outcome ← session.perform operation
    return outcome :: (← outcome.session.run more)

end Session

end ExprScan
