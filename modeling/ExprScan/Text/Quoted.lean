import ExprScan.Text.DefaultIgnorable
import ExprScan.Text.GraphemeExtend
import ExprScan.Text.Unprintable

/-! # Quoted text

  A character is shown between single quotes and a text between double
  quotes. What could not be told apart on a screen is escaped: the five
  characters that have a letter of their own, the quote that closes the
  form, and by its code point every mark that would be drawn onto its
  neighbour and every character of which nothing would be seen.
-/

namespace ExprScan.Text

/-- Whether a character is shown by its code point. -/
def isConcealed (c : Char) : Bool := isOverlaid c || isUnprintable c || isDefaultIgnorable c

/-- The letter that stands for a character behind a backslash. -/
def escapeLetter? (c : Char) : Option Char :=
  if c = '\x00' then some '0'
  else if c = '\t' then some 't'
  else if c = '\r' then some 'r'
  else if c = '\n' then some 'n'
  else if c = '\x5c' then some '\x5c'
  else none

/-- A character written by its code point. -/
def codePoint (c : Char) : List Char :=
  ['\x5c', 'u', '\x7b'] ++ Nat.toDigits 16 c.toNat ++ ['\x7d']

/-- A character as it is written between a given kind of quotes. -/
def escape (quote : Char) (c : Char) : List Char :=
  match escapeLetter? c with
  | some letter => ['\x5c', letter]
  | none =>
    if c = quote then ['\x5c', c]
    else if isConcealed c then codePoint c
    else [c]

/-- A character between single quotes. -/
def quotedChar (c : Char) : String :=
  String.ofList ('\x27' :: escape '\x27' c ++ ['\x27'])

/-- A text between double quotes. -/
def quoted (text : String) : String :=
  String.ofList ('\x22' :: text.toList.flatMap (escape '\x22') ++ ['\x22'])

end ExprScan.Text
