import ExprScan.Event

/-! # The lexer

  A lexer goes through a source item by item. It holds its cursor, the text
  that is still ahead of it, and what it has counted so far. A lexer is a
  value: asking for the next item returns another lexer and leaves the first
  as it was, so any state can be kept and gone back to.

  Main statements: a lexer that gives an item has less text ahead of it
  (`length_rest_lt`), which is why going through a source comes to an end.
-/

namespace ExprScan

/-- A lexer in the midst of a source. -/
structure Lexer where
  source : String
  /-- The cursor. -/
  position : Position
  /-- The text from the cursor on. -/
  rest : List Char
  /-- How many tokens were given so far. -/
  tokens : Nat
  /-- How many illegal characters were reported so far. -/
  errors : Nat
  /-- Whether the end was reached and recorded. -/
  finished : Bool
deriving DecidableEq

/-! ### Seeking -/

/-- The next item and what is behind it. -/
structure Sought where
  item : Option Item
  position : Position
  rest : List Char
deriving DecidableEq

/-- The next item of a text that starts at a cursor. Blanks and line breaks
    ahead of it are passed over. -/
def seek (pos : Position) (rest : List Char) : Except Fault Sought :=
  match _h : Piece.first? rest with
  | none => .ok ⟨none, pos, rest⟩
  | some piece =>
    match piece.step pos with
    | .error fault => .error fault
    | .ok found =>
      match found.scanned.item? with
      | some item => .ok ⟨some item, found.next, piece.rest⟩
      | none => seek found.next piece.rest
termination_by rest.length
decreasing_by exact Piece.length_rest_lt _h

theorem length_rest_lt_of_seek {pos : Position} {rest : List Char} {sought : Sought}
    (h : seek pos rest = .ok sought) (hitem : sought.item.isSome) :
    sought.rest.length < rest.length := by
  fun_induction seek pos rest with
  | case1 => obtain rfl := Except.ok.inj h; simp at hitem
  | case2 => simp at h
  | case3 pos rest piece hpiece =>
    obtain rfl := Except.ok.inj h
    exact Piece.length_rest_lt hpiece
  | case4 pos rest piece hpiece _ _ _ ih =>
    exact Nat.lt_trans (ih h) (Piece.length_rest_lt hpiece)

namespace Lexer

/-! ### One item -/

/-- A lexer at the start of a source. -/
def ofSource (source : String) : Lexer :=
  { source, position := .start, rest := source.toList, tokens := 0, errors := 0,
    finished := false }

/-- The line that the cursor is on. -/
def line (lexer : Lexer) : UInt32 := lexer.position.line

/-- Whether the cursor is at the end of the source. -/
def atEnd (lexer : Lexer) : Bool :=
  Text.byteLength lexer.source.toList ≤ lexer.position.offset

/-- What asking for the next item gives. -/
structure Reading where
  item : Option Item
  lexer : Lexer
  events : List Event
deriving DecidableEq

/-- The counts of a lexer with one more item. -/
def count (lexer : Lexer) : Item → Lexer
  | .token _ => { lexer with tokens := lexer.tokens + 1 }
  | .illegal _ => { lexer with errors := lexer.errors + 1 }

/-- The lexer after it has reached the end, and what it records when it gets
    there for the first time. -/
def finish (lexer : Lexer) : Lexer × List Event :=
  if lexer.finished then (lexer, [])
  else ({ lexer with finished := true }, [.finished lexer.tokens lexer.errors lexer.line])

/-- The next item; none at the end of the source, however often it is asked
    for. -/
def next (lexer : Lexer) : Except Fault Reading := do
  let sought ← seek lexer.position lexer.rest
  let moved := { lexer with position := sought.position, rest := sought.rest }
  match sought.item with
  | some item => return ⟨some item, moved.count item, [Event.ofItem item]⟩
  | none =>
    let (last, events) := moved.finish
    return ⟨none, last, events⟩

@[simp] theorem rest_count (lexer : Lexer) (item : Item) :
    (lexer.count item).rest = lexer.rest := by cases item <;> rfl

theorem length_rest_lt {lexer : Lexer} {reading : Reading} {item : Item}
    (h : lexer.next = .ok reading) (hitem : reading.item = some item) :
    reading.lexer.rest.length < lexer.rest.length := by
  simp only [next, bind, Except.bind] at h
  split at h
  · simp at h
  · next sought hsought =>
    split at h
    · next found hfound =>
      obtain rfl := Except.ok.inj h
      simpa using length_rest_lt_of_seek hsought (by simp [hfound])
    · obtain rfl := Except.ok.inj h
      simp at hitem

/-! ### All items -/

/-- What going through the rest of a source gives. -/
structure Drained where
  items : List Item
  lexer : Lexer
  events : List Event
deriving DecidableEq

/-- Goes on to the end. Items and events found before are kept in reverse. -/
def drainOnto (lexer : Lexer) (items : List Item) (events : List Event) :
    Except Fault Drained :=
  match _h : lexer.next with
  | .error fault => .error fault
  | .ok reading =>
    match _hitem : reading.item with
    | none => .ok ⟨items.reverse, reading.lexer, events.reverse ++ reading.events⟩
    | some item => drainOnto reading.lexer (item :: items) (reading.events.reverse ++ events)
termination_by lexer.rest.length
decreasing_by exact length_rest_lt _h _hitem

/-- All items that are left, in order. -/
def drain (lexer : Lexer) : Except Fault Drained := lexer.drainOnto [] []

/-- All items that are left but the comments. What is left out is recorded
    all the same. -/
def withoutComments (lexer : Lexer) : Except Fault (List Item × List Event) := do
  let drained ← lexer.drain
  return (drained.items.filter fun item => !item.isComment, drained.events)

/-! ### Showing -/

/-- A lexer in full. -/
def debug (lexer : Lexer) : String :=
  Text.record "Lexer"
    [("source", Text.quoted lexer.source), ("state", lexer.position.debug),
     ("tokens", toString lexer.tokens), ("errors", toString lexer.errors),
     ("finished", if lexer.finished then "true" else "false")]

end Lexer

/-- The tokens of a source and the illegal characters in it, each in order. -/
def tokenize (source : String) : Except Fault (List Token × List Illegal) := do
  let drained ← (Lexer.ofSource source).drain
  return (drained.items.filterMap Item.token?, drained.items.filterMap Item.illegal?)

end ExprScan
