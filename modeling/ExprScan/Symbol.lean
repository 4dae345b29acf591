/-! # Symbols

  The operators, comparators and brackets of the language. Each is a fixed
  text of one or two characters. Where two symbols could start at the same
  place the longer one is meant, so the table that is searched holds the
  longer ones first. It is the list of declared symbols, sorted by insertion;
  symbols of one length stay in the order of their declaration.

  Main statements: every symbol is in the table (`mem_table`), no symbol
  stands before a longer one (`table_longest_first`), symbols of one length
  stand as they are declared (`table_keeps_order`), and two symbols never
  share a spelling (`spelling_injective`).
-/

namespace ExprScan

/-- A symbol of the language. -/
inductive Symbol where
  | plus
  | minus
  | multiply
  | divide
  | modulo
  | not
  | equals
  | lessThan
  | greaterThan
  | lessOrEqual
  | greaterOrEqual
  | doubleEqual
  | notEqual
  | and
  | or
  | leftParen
  | rightParen
  | leftBracket
  | rightBracket
  | blockStart
  | blockEnd
deriving DecidableEq, Repr

namespace Symbol

/-- The text of a symbol in a source. -/
def spelling : Symbol → List Char
  | plus => ['+']
  | minus => ['-']
  | multiply => ['*']
  | divide => ['/']
  | modulo => ['%']
  | not => ['~']
  | equals => ['=']
  | lessThan => ['<']
  | greaterThan => ['>']
  | lessOrEqual => ['<', '=']
  | greaterOrEqual => ['>', '=']
  | doubleEqual => ['=', '=']
  | notEqual => ['!', '=']
  | and => ['&']
  | or => ['|']
  | leftParen => ['(']
  | rightParen => [')']
  | leftBracket => ['[']
  | rightBracket => [']']
  | blockStart => ['\x7b']
  | blockEnd => ['\x7d']

/-- The name under which a symbol is shown. -/
def name : Symbol → String
  | plus => "Plus"
  | minus => "Minus"
  | multiply => "Multiply"
  | divide => "Divide"
  | modulo => "Modulo"
  | not => "Not"
  | equals => "Equals"
  | lessThan => "LessThan"
  | greaterThan => "GreaterThan"
  | lessOrEqual => "LessOrEqual"
  | greaterOrEqual => "GreaterOrEqual"
  | doubleEqual => "DoubleEqual"
  | notEqual => "NotEqual"
  | and => "And"
  | or => "Or"
  | leftParen => "LParen"
  | rightParen => "RParen"
  | leftBracket => "LBracket"
  | rightBracket => "RBracket"
  | blockStart => "BlockStart"
  | blockEnd => "BlockEnd"

/-! ### The table -/

/-- All symbols in the order of their declaration. -/
def declared : List Symbol :=
  [plus, minus, multiply, divide, modulo, not, equals,
   lessThan, greaterThan, lessOrEqual, greaterOrEqual, doubleEqual, notEqual, and, or,
   leftParen, rightParen, leftBracket, rightBracket, blockStart, blockEnd]

/-- Puts a symbol ahead of those that are no longer than it. -/
def place (s : Symbol) : List Symbol → List Symbol
  | [] => [s]
  | t :: symbols =>
    if t.spelling.length ≤ s.spelling.length then s :: t :: symbols
    else t :: place s symbols

/-- The symbols with the longer ones first. -/
def longestFirst (symbols : List Symbol) : List Symbol := symbols.foldr place []

/-- All symbols, the longer ones first. -/
def table : List Symbol := longestFirst declared

theorem mem_declared (s : Symbol) : s ∈ declared := by cases s <;> decide

theorem mem_place {s t : Symbol} {symbols : List Symbol} :
    t ∈ place s symbols ↔ t = s ∨ t ∈ symbols := by
  induction symbols with
  | nil => simp [place]
  | cons u symbols ih =>
    unfold place
    split
    · simp
    · rw [List.mem_cons, ih, List.mem_cons]
      exact or_left_comm

theorem mem_longestFirst {s : Symbol} {symbols : List Symbol} :
    s ∈ longestFirst symbols ↔ s ∈ symbols := by
  induction symbols with
  | nil => exact Iff.rfl
  | cons t symbols ih =>
    show s ∈ place t (longestFirst symbols) ↔ _
    rw [mem_place, ih, List.mem_cons]

theorem place_sorted (s : Symbol) {symbols : List Symbol}
    (h : symbols.Pairwise fun t u => u.spelling.length ≤ t.spelling.length) :
    (place s symbols).Pairwise fun t u => u.spelling.length ≤ t.spelling.length := by
  induction symbols with
  | nil => exact List.pairwise_singleton _ _
  | cons t symbols ih =>
    obtain ⟨hfirst, hmore⟩ := List.pairwise_cons.mp h
    unfold place
    split
    · next hle =>
      apply List.pairwise_cons.mpr ⟨?_, h⟩
      intro u hu
      rcases List.mem_cons.mp hu with rfl | hu
      · exact hle
      · exact Nat.le_trans (hfirst u hu) hle
    · next hlt =>
      apply List.pairwise_cons.mpr ⟨?_, ih hmore⟩
      intro u hu
      rcases mem_place.mp hu with rfl | hu
      · exact Nat.le_of_not_le hlt
      · exact hfirst u hu

theorem longestFirst_sorted (symbols : List Symbol) :
    (longestFirst symbols).Pairwise fun s t => t.spelling.length ≤ s.spelling.length := by
  induction symbols with
  | nil => exact List.Pairwise.nil
  | cons s symbols ih => exact place_sorted s ih

/-- Among the symbols of one length, the one that is put in comes first. -/
theorem place_keeps_order (s : Symbol) (symbols : List Symbol) (n : Nat) :
    (place s symbols).filter (·.spelling.length == n)
      = (s :: symbols).filter (·.spelling.length == n) := by
  induction symbols with
  | nil => rfl
  | cons t symbols ih =>
    unfold place
    split
    · rfl
    · next hlt =>
      rw [List.filter_cons, ih]
      -- The two differ in length, so at most one of them is kept.
      by_cases hs : s.spelling.length = n
      · have ht : ¬ t.spelling.length = n := by omega
        simp [hs, ht]
      · simp [List.filter_cons, hs]

theorem longestFirst_keeps_order (symbols : List Symbol) (n : Nat) :
    (longestFirst symbols).filter (·.spelling.length == n)
      = symbols.filter (·.spelling.length == n) := by
  induction symbols with
  | nil => rfl
  | cons s symbols ih =>
    show (place s (longestFirst symbols)).filter _ = _
    rw [place_keeps_order, List.filter_cons, List.filter_cons, ih]

theorem mem_table (s : Symbol) : s ∈ table := mem_longestFirst.mpr (mem_declared s)

/-- No symbol of the table stands before a longer one. -/
theorem table_longest_first :
    table.Pairwise fun s t => t.spelling.length ≤ s.spelling.length :=
  longestFirst_sorted declared

/-- The symbols of one length stand in the table as they are declared. -/
theorem table_keeps_order (n : Nat) :
    table.filter (·.spelling.length == n) = declared.filter (·.spelling.length == n) :=
  longestFirst_keeps_order declared n

theorem spelling_injective {s t : Symbol} (h : s.spelling = t.spelling) : s = t := by
  cases s <;> cases t <;> simp_all [spelling]

theorem spelling_ne_nil (s : Symbol) : s.spelling ≠ [] := by cases s <;> decide

/-- The longest symbol that a text starts with. -/
def leading? (text : List Char) : Option Symbol :=
  table.find? fun s => s.spelling.isPrefixOf text

end Symbol

end ExprScan
