import ExprScan.Proofs.LineNumbers
import Mathlib.Algebra.GroupWithZero.Nat

/-! # Lines and columns

  Looking up an offset gives the number of a line, its text and a column.
  All three can be read off the bytes of the source without cutting it into
  lines (`Line.Tells`): the number counts the line feeds before the offset,
  the column is the distance from the last of them, and the text goes on to
  the next one. An offset past the end counts as the end.

  The look-up goes line by line, and so does the proof: a line in front of a
  text adds its bytes to every offset behind it and one to every line number
  (`Line.locateFrom_tells`). Hence number and column lead back to the offset
  and grow with it (`Line.Tells.lt_iff`).
-/

namespace ExprScan

/-! ### Line feeds among bytes -/

/-- The byte of a line feed. -/
def feedByte : UInt8 := 10

/-- The offset just behind the last line feed of some bytes; 0 if there is none. -/
def lineStart (bytes : List UInt8) : Nat :=
  bytes.length - (bytes.rtakeWhile (· != feedByte)).length

/-- The bytes up to and including the first line feed; all of them if there is none. -/
def throughFeed (bytes : List UInt8) : List UInt8 :=
  bytes.takeWhile (· != feedByte) ++ (bytes.dropWhile (· != feedByte)).take 1

section bytes

variable {front bytes : List UInt8}

theorem lineStart_single (h : feedByte ∉ bytes) : lineStart bytes = 0 := by
  rw [lineStart, rtakeWhile_single h, Nat.sub_self]

/-- What stands in front of a line feed puts the start of the last line further on. -/
theorem lineStart_line :
    lineStart (front ++ feedByte :: bytes) = front.length + 1 + lineStart bytes := by
  have hshorter : (bytes.rtakeWhile (· != feedByte)).length ≤ bytes.length :=
    (List.rtakeWhile_suffix _ _).length_le
  rw [lineStart, lineStart, rtakeWhile_line, List.length_append, List.length_cons]
  omega

theorem throughFeed_single (h : feedByte ∉ bytes) : throughFeed bytes = bytes := by
  rw [throughFeed, takeWhile_single h, dropWhile_single h, List.take_nil, List.append_nil]

theorem throughFeed_line (h : feedByte ∉ front) :
    throughFeed (front ++ feedByte :: bytes) = front ++ [feedByte] := by
  rw [throughFeed, takeWhile_line h, dropWhile_line h]
  rfl

end bytes

/-! ### Line feeds in an encoding -/

/-- The bytes of a character beyond the first 128 are beyond them too. -/
theorem le_of_mem_utf8EncodeChar {c : Char} {byte : UInt8} (hc : ¬ c.val.toNat ≤ 127)
    (h : byte ∈ String.utf8EncodeChar c) : 128 ≤ byte.toNat := by
  have hbyte : ∀ n, 128 ≤ n → n < 256 → 128 ≤ (UInt8.ofNat n).toNat := by
    intro n hlow hhigh
    rwa [UInt8.toNat_ofNat_of_lt' hhigh]
  simp only [String.utf8EncodeChar, if_neg hc] at h
  split at h
  · simp only [List.mem_cons, List.not_mem_nil, or_false] at h
    rcases h with rfl | rfl <;> exact hbyte _ (by omega) (by omega)
  split at h
  · simp only [List.mem_cons, List.not_mem_nil, or_false] at h
    rcases h with rfl | rfl | rfl <;> exact hbyte _ (by omega) (by omega)
  · simp only [List.mem_cons, List.not_mem_nil, or_false] at h
    rcases h with rfl | rfl | rfl | rfl <;> exact hbyte _ (by omega) (by omega)

theorem eq_lineFeed_of_mem_utf8EncodeChar {c : Char} (h : feedByte ∈ String.utf8EncodeChar c) :
    c = '\n' := by
  by_cases hc : c.val.toNat ≤ 127
  · simp only [String.utf8EncodeChar, if_pos hc] at h
    have hsmall : c.val.toNat < 256 := by omega
    have hvalue := congrArg UInt8.toNat (List.mem_singleton.mp h)
    rw [UInt8.toNat_ofNat_of_lt' hsmall] at hvalue
    exact Char.ext (UInt32.toNat_inj.mp hvalue.symm)
  · exact absurd (le_of_mem_utf8EncodeChar hc h) (by decide)

/-- A text without a line feed has no byte of one. -/
theorem feedByte_notMem_utf8 {text : List Char} (h : '\n' ∉ text) :
    feedByte ∉ Text.utf8 text := by
  intro hmem
  obtain ⟨c, hc, hbyte⟩ := List.mem_flatMap.mp hmem
  exact h (eq_lineFeed_of_mem_utf8EncodeChar hbyte ▸ hc)

theorem utf8_line (line rest : List Char) :
    Text.utf8 (line ++ '\n' :: rest) = Text.utf8 line ++ feedByte :: Text.utf8 rest :=
  Text.utf8_append line ('\n' :: rest)

/-! ### What a look-up tells -/

/-- What is told of a place among the bytes of a text whose first line has a
    given number. -/
structure Line.Tells (line : Line) (number place : Nat) (bytes : List UInt8) : Prop where
  /-- The line feeds before the place number the line. -/
  number_eq : line.number = number + (bytes.take place).count feedByte
  /-- The column is the distance from the last line feed before the place. -/
  column_eq : line.column = place - lineStart (bytes.take place)
  /-- The text goes from there to the next line feed and includes it. -/
  text_eq : Text.utf8 line.text = throughFeed (bytes.drop (lineStart (bytes.take place)))
  /-- The lines before this one, each with its line feed, and the column make up the place. -/
  place_eq : (((bytes.splitOn feedByte).take (line.number - number)).map
    fun before => before.length + 1).sum + line.column = place

namespace Line

/-- What is told of a place with no line feed before it. -/
theorem Tells.first {number place : Nat} {bytes : List UInt8} {text : List Char}
    (hfirst : feedByte ∉ bytes.take place) (htext : Text.utf8 text = throughFeed bytes) :
    Tells ⟨number, text, place⟩ number place bytes := by
  have hstart := lineStart_single hfirst
  refine ⟨?_, ?_, ?_, ?_⟩
  · rw [List.count_eq_zero_of_not_mem hfirst, Nat.add_zero]
  · rw [hstart, Nat.sub_zero]
  · rw [hstart]
    exact htext
  · simp

/-- A line in front of some bytes puts every place in them further on. -/
theorem Tells.behind {line : Line} {number place : Nat} {front bytes : List UInt8}
    (hfront : feedByte ∉ front) (h : line.Tells (number + 1) place bytes) :
    line.Tells number (front.length + 1 + place) (front ++ feedByte :: bytes) := by
  have htake : (front ++ feedByte :: bytes).take (front.length + 1 + place)
      = front ++ feedByte :: bytes.take place := by
    rw [Nat.add_assoc, List.take_length_add_append, Nat.add_comm 1, List.take_succ_cons]
  have hnumber := h.number_eq
  refine ⟨?_, ?_, ?_, ?_⟩
  · rw [htake, List.count_append, List.count_cons_self, List.count_eq_zero_of_not_mem hfront]
    omega
  · rw [htake, lineStart_line, h.column_eq]
    omega
  · rw [htake, lineStart_line, h.text_eq, Nat.add_assoc, List.drop_length_add_append,
      Nat.add_comm 1, List.drop_succ_cons]
  · have hmore : line.number - number = line.number - (number + 1) + 1 := by omega
    have hplace := h.place_eq
    rw [List.splitOn_append_cons_self_of_not_mem hfront, hmore, List.take_succ_cons,
      List.map_cons, List.sum_cons]
    omega

/-- A look-up tells of the place of its offset. -/
theorem locateFrom_tells (number offset : Nat) (text : List Char) :
    (locateFrom number text offset).Tells number (min offset (Text.byteLength text))
      (Text.utf8 text) := by
  induction text using line_induction generalizing number offset with
  | single line hline =>
    have hbytes := feedByte_notMem_utf8 hline
    rw [locateFrom_single hline]
    apply Tells.first
    · intro hmem
      exact hbytes (List.mem_of_mem_take hmem)
    · rw [throughFeed_single hbytes]
  | before line text hline ih =>
    have hbytes := feedByte_notMem_utf8 hline
    have hfeed : Char.utf8Size '\n' = 1 := rfl
    rw [locateFrom_line hline, Text.byteLength_append, Text.byteLength_cons, utf8_line, hfeed]
    by_cases hfirst : offset < Text.byteLength line + 1
    · -- The offset lies in the line or at its line feed.
      have hlength : offset ≤ (Text.utf8 line).length := by
        rw [Text.length_utf8]
        omega
      rw [if_pos hfirst, Nat.min_eq_left (by omega)]
      apply Tells.first
      · intro hmem
        rw [List.take_append_of_le_length hlength] at hmem
        exact hbytes (List.mem_of_mem_take hmem)
      · rw [throughFeed_line hbytes, Text.utf8_append]
        rfl
    · have hplace : min offset (Text.byteLength line + (1 + Text.byteLength text))
          = (Text.utf8 line).length + 1
            + min (offset - (Text.byteLength line + 1)) (Text.byteLength text) := by
        rw [Text.length_utf8]
        omega
      rw [if_neg hfirst, hplace]
      exact (ih (number + 1) (offset - (Text.byteLength line + 1))).behind hbytes

/-! ### From lines and columns back to offsets -/

section order

variable {first second : Line} {number place other : Nat} {bytes : List UInt8}

/-- Number and column lead back to the place. -/
theorem Tells.place_unique (hfirst : first.Tells number place bytes)
    (hsecond : second.Tells number other bytes) (hnumber : first.number = second.number)
    (hcolumn : first.column = second.column) : place = other := by
  rw [← hfirst.place_eq, ← hsecond.place_eq, hnumber, hcolumn]

/-- Number and column grow with the place. -/
theorem Tells.lt_of_lt (hfirst : first.Tells number place bytes)
    (hsecond : second.Tells number other bytes) (h : place < other) :
    first.number < second.number ∨
      first.number = second.number ∧ first.column < second.column := by
  have hnumber : first.number ≤ second.number := by
    have hcount : (bytes.take place).count feedByte ≤ (bytes.take other).count feedByte :=
      (List.take_sublist_take_left (Nat.le_of_lt h)).count_le _
    rw [hfirst.number_eq, hsecond.number_eq]
    omega
  rcases Nat.lt_or_eq_of_le hnumber with hless | hsame
  · exact Or.inl hless
  · -- The same lines come before both, so the columns make the difference.
    have hplace := hfirst.place_eq
    have hother := hsecond.place_eq
    rw [hsame] at hplace
    exact Or.inr ⟨hsame, by omega⟩

theorem Tells.lt_iff (hfirst : first.Tells number place bytes)
    (hsecond : second.Tells number other bytes) :
    place < other ↔ first.number < second.number ∨
      first.number = second.number ∧ first.column < second.column := by
  constructor
  · exact hfirst.lt_of_lt hsecond
  · intro hline
    rcases Nat.lt_trichotomy place other with h | rfl | h
    · exact h
    · have hnumber := hfirst.number_eq.trans hsecond.number_eq.symm
      have hcolumn := hfirst.column_eq.trans hsecond.column_eq.symm
      omega
    · have hback := hsecond.lt_of_lt hfirst h
      omega

end order

/-- An offset past the end is looked up as the end. -/
theorem locate_min (source : String) (offset : Nat) :
    locate source (min offset (Text.byteLength source.toList)) = locate source offset := by
  rcases Nat.le_total offset (Text.byteLength source.toList) with h | h
  · rw [Nat.min_eq_left h]
  · rw [Nat.min_eq_right h, locate_of_le (Nat.le_refl _), locate_of_le h]

end Line

/-- **Lines and columns**: what the look-up of an offset gives is told by the
    bytes of the source and the place of the offset, which is the offset itself
    or the end of the source. The answers of two offsets are the same exactly
    if their places are, and a place is before another exactly if its line is,
    or its column is on the same line. -/
theorem offsets_read_off_bytes (source : String) :
    (∀ offset, (Line.locate source offset).Tells 1 (min offset source.utf8ByteSize)
      source.toByteArray.data.toList) ∧
    (∀ offset other, min offset source.utf8ByteSize = min other source.utf8ByteSize ↔
      Line.locate source offset = Line.locate source other) ∧
    ∀ offset other, min offset source.utf8ByteSize < min other source.utf8ByteSize ↔
      (Line.locate source offset).number < (Line.locate source other).number ∨
        (Line.locate source offset).number = (Line.locate source other).number ∧
          (Line.locate source offset).column < (Line.locate source other).column := by
  have hsize : source.utf8ByteSize = Text.byteLength source.toList := by
    rw [← Text.length_utf8, ← Text.toList_data_toByteArray]
    rfl
  have htells : ∀ offset, (Line.locate source offset).Tells 1
      (min offset source.utf8ByteSize) source.toByteArray.data.toList := by
    intro offset
    rw [hsize, Text.toList_data_toByteArray]
    exact Line.locateFrom_tells 1 offset source.toList
  refine ⟨htells, ?_, ?_⟩
  · intro offset other
    constructor
    · intro hplace
      rw [← Line.locate_min source offset, ← Line.locate_min source other, ← hsize, hplace]
    · intro hline
      exact (htells offset).place_unique (htells other) (by rw [hline]) (by rw [hline])
  · intro offset other
    exact (htells offset).lt_iff (htells other)

end ExprScan
