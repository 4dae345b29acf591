import ExprScan.Fault

/-! # Text measured in bytes

  Offsets into a text count bytes of UTF-8, while the text itself is a list
  of characters. This module measures a text in bytes and cuts it at byte
  offsets. A cut is refused when the offset lies past the end or inside a
  character; an offset equal to the length is a valid cut.

  Main statements: `dropBytes_byteLength_append` says that cutting off a
  text as long as a known first part leaves exactly the rest,
  `slice_byteLength_append` that a part is the range it takes up,
  `byteLength_append` that lengths add up, and `length_utf8` that a length
  is the number of bytes of the encoding.
-/

namespace ExprScan.Text

/-! ### Measuring -/

/-- The length of a text in bytes. -/
def byteLength (text : List Char) : Nat :=
  text.foldr (fun c length => c.utf8Size + length) 0

@[simp] theorem byteLength_nil : byteLength [] = 0 := rfl

@[simp] theorem byteLength_cons (c : Char) (text : List Char) :
    byteLength (c :: text) = c.utf8Size + byteLength text := rfl

@[simp] theorem byteLength_append (first second : List Char) :
    byteLength (first ++ second) = byteLength first + byteLength second := by
  induction first with
  | nil => simp
  | cons c first ih => simp [ih, Nat.add_assoc]

theorem byteLength_eq_zero {text : List Char} : byteLength text = 0 ↔ text = [] := by
  cases text with
  | nil => simp
  | cons c text =>
    have := c.utf8Size_pos
    simp only [byteLength_cons, reduceCtorEq, iff_false]
    omega

/-! ### Encoding -/

/-- The bytes of a text in UTF-8. -/
def utf8 (text : List Char) : List UInt8 := text.flatMap String.utf8EncodeChar

theorem utf8_append (first second : List Char) :
    utf8 (first ++ second) = utf8 first ++ utf8 second := List.flatMap_append

/-- A text has as many bytes as its encoding. -/
theorem length_utf8 (text : List Char) : (utf8 text).length = byteLength text := by
  induction text with
  | nil => rfl
  | cons c text ih =>
    show (String.utf8EncodeChar c ++ utf8 text).length = c.utf8Size + byteLength text
    rw [List.length_append, String.length_utf8EncodeChar, ih]

/-- The bytes of a string are those of its text. -/
theorem toList_data_toByteArray (source : String) :
    source.toByteArray.data.toList = utf8 source.toList := by
  rw [← String.utf8Encode_toList]
  exact List.toList_data_toByteArray

/-- The size of a string is the length of its text. -/
theorem byteLength_toList (source : String) :
    byteLength source.toList = source.utf8ByteSize := by
  rw [← length_utf8, ← toList_data_toByteArray]
  rfl

/-! ### Cutting -/

/-- The text from a byte offset on. -/
def dropBytes : Nat → List Char → Except Fault (List Char)
  | 0, text => .ok text
  | _ + 1, [] => .error .outOfBounds
  | offset + 1, c :: text =>
    if c.utf8Size ≤ offset + 1 then dropBytes (offset + 1 - c.utf8Size) text
    else .error .insideCharacter

@[simp] theorem dropBytes_zero (text : List Char) : dropBytes 0 text = .ok text := by
  cases text <;> rfl

theorem dropBytes_utf8Size_add (c : Char) (offset : Nat) (text : List Char) :
    dropBytes (c.utf8Size + offset) (c :: text) = dropBytes offset text := by
  obtain ⟨n, hn⟩ : ∃ n, c.utf8Size + offset = n + 1 :=
    ⟨c.utf8Size + offset - 1, by have := c.utf8Size_pos; omega⟩
  rw [hn, dropBytes, if_pos (by omega)]
  congr 1
  omega

/-- Cutting off as many bytes as a first part has leaves the second part. -/
theorem dropBytes_byteLength_append (first second : List Char) :
    dropBytes (byteLength first) (first ++ second) = .ok second := by
  induction first with
  | nil => simp
  | cons c first ih => simp [dropBytes_utf8Size_add, ih]

/-- The bytes of a range. An offset past the end is found first, then a range
    that runs backwards, then an offset inside a character. -/
def slice (text : List Char) (start stop : Nat) : Except Fault (List Char) :=
  if byteLength text < max start stop then .error .outOfBounds
  else if stop < start then .error .reversed
  else do
    let tail ← dropBytes start text
    let after ← dropBytes (stop - start) tail
    return tail.take (tail.length - after.length)

/-- The range from the end of a first part to the end of a second part is the
    second part. -/
theorem slice_byteLength_append (first second third : List Char) :
    slice (first ++ (second ++ third)) (byteLength first)
      (byteLength first + byteLength second) = .ok second := by
  have hinside : ¬ byteLength (first ++ (second ++ third))
      < max (byteLength first) (byteLength first + byteLength second) := by
    simp only [byteLength_append]
    omega
  unfold slice
  rw [if_neg hinside, if_neg (by omega), Nat.add_sub_cancel_left]
  simp [dropBytes_byteLength_append, bind, Except.bind, pure, Except.pure]

end ExprScan.Text
