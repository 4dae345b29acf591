import ExprScan.Symbol

/-! # Kinds of tokens

  A token is a symbol, a number with or without a point, or a comment.
-/

namespace ExprScan

/-- What sort of token a piece of text is. -/
inductive Kind where
  | symbol (s : Symbol)
  | integer
  | float
  | comment
deriving DecidableEq, Repr

namespace Kind

/-- The name under which a kind is shown. -/
def name : Kind → String
  | symbol s => s.name
  | integer => "Integer"
  | float => "Float"
  | comment => "Comment"

/-- Whether tokens of this kind are literals of the language. -/
def isLiteral : Kind → Bool
  | integer | float => true
  | symbol _ | comment => false

/-- All kinds. -/
def all : List Kind := Symbol.table.map symbol ++ [integer, float, comment]

theorem mem_all (k : Kind) : k ∈ all := by
  cases k with
  | symbol s => exact List.mem_append_left _ (List.mem_map_of_mem (Symbol.mem_table s))
  | integer => decide
  | float => decide
  | comment => decide

/-- The kind with a given name. -/
def ofName? (name : String) : Option Kind := all.find? fun k => k.name == name

end Kind

end ExprScan
