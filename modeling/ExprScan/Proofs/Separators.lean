import ExprScan.Proofs.Munch

/-! # Separators

  Blanks and line breaks separate items and are none themselves. No number
  and no symbol holds one, so a separator ends every item but a comment, and
  a comment goes on over spaces and tabs only
  (`Category.Labels.settled_of_separator`).
-/

namespace ExprScan

/-- The characters that may stand between items. -/
def isSeparator (c : Char) : Bool := isBlank c || isLineBreak c

/-- A text of separators only. -/
def AllSeparators (text : List Char) : Prop := ∀ c ∈ text, isSeparator c = true

/-- Whether a piece of this category is an item. -/
def Category.isItem : Category → Bool
  | .blank | .lineBreaks => false
  | .token _ | .illegal _ => true

/-! ### Texts of separators -/

theorem AllSeparators.append {first second : List Char} (h₁ : AllSeparators first)
    (h₂ : AllSeparators second) : AllSeparators (first ++ second) := by
  intro c hc
  rcases List.mem_append.mp hc with hc | hc
  · exact h₁ c hc
  · exact h₂ c hc

/-- A separator is a word by itself. -/
theorem isWord_of_isSeparator {c : Char} (hc : isSeparator c = true) : IsWord [c] := by
  unfold isSeparator at hc
  rw [Bool.or_eq_true] at hc
  rcases hc with hc | hc
  · exact ⟨.blank, by simp, by simpa using hc⟩
  · exact ⟨.lineBreaks, by simp, by simpa using hc⟩

/-- A piece that is no item consists of separators. -/
theorem Category.Labels.allSeparators {category : Category} {text : List Char}
    (h : category.Labels text) (hitem : category.isItem = false) : AllSeparators text := by
  intro c hc
  unfold isSeparator
  rcases h with hspells | ⟨d, rfl, -, -⟩
  · match category, hspells, hitem with
    | .blank, h, _ => simp [h.2 c hc]
    | .lineBreaks, h, _ => simp [h.2 c hc]
  · simp [isItem] at hitem

/-! ### Separators in words -/

/-- Separators are among four characters. -/
theorem eq_of_isSeparator {c : Char} (hc : isSeparator c = true) :
    c = ' ' ∨ c = '\t' ∨ c = '\r' ∨ c = '\n' := by
  simpa [isSeparator, isBlank, isLineBreak, or_assoc] using hc

/-- Where a word holds a separator, it is a run of separators or a comment. -/
theorem Category.Spells.of_mem_separator {category : Category} {text : List Char} {c : Char}
    (h : category.Spells text) (hc : isSeparator c = true) (hmem : c ∈ text) :
    category.isItem = false ∨ category = .token .comment ∧ isCommentChar c = true := by
  have hchars := eq_of_isSeparator hc
  have hdigit : ¬ c.isDigit = true := by
    rcases hchars with rfl | rfl | rfl | rfl <;> decide
  match category, h with
  | .blank, _ => exact Or.inl rfl
  | .lineBreaks, _ => exact Or.inl rfl
  | .token .integer, h => exact absurd (h.2 c hmem) hdigit
  | .token .float, h =>
    obtain ⟨whole, fraction, rfl, hwhole, hfraction, _⟩ := h
    rcases List.mem_append.mp hmem with hmem | hmem
    · exact absurd (hwhole c hmem) hdigit
    · rcases List.mem_cons.mp hmem with rfl | hmem
      · exact absurd hc (by decide)
      · exact absurd (hfraction c hmem) hdigit
  | .token .comment, h =>
    obtain ⟨body, rfl, hbody⟩ := h
    rcases List.mem_cons.mp hmem with rfl | hmem
    · exact absurd hc (by decide)
    · exact Or.inr ⟨rfl, hbody c hmem⟩
  | .token (.symbol s), h =>
    rw [show text = s.spelling from h] at hmem
    rcases hchars with rfl | rfl | rfl | rfl <;> cases s <;> exact absurd hmem (by decide)

/-- Only runs of line breaks hold line feeds. -/
theorem Category.Labels.lineFeed_notMem {category : Category} {text : List Char}
    (h : category.Labels text) (hcategory : category ≠ .lineBreaks) : '\n' ∉ text := by
  intro hmem
  rcases h with hspells | ⟨c, -, rfl, hc⟩
  · rcases hspells.of_mem_separator (by decide) hmem with hitem | ⟨-, hchar⟩
    · match category, hitem, hspells with
      | .blank, _, h => exact absurd (h.2 _ hmem) (by decide)
      | .lineBreaks, _, _ => exact hcategory rfl
    · exact absurd hchar (by decide)
  · obtain rfl : '\n' = c := List.mem_singleton.mp hmem
    exact hc (isWord_of_isSeparator (by decide))

/-! ### Separators behind items -/

/-- A word that starts with a separator is a run of separators. -/
theorem Category.Spells.not_isItem {category : Category} {c : Char} {more : List Char}
    (h : category.Spells (c :: more)) (hc : isSeparator c = true) :
    category.isItem = false := by
  rcases h.of_mem_separator hc List.mem_cons_self with hitem | ⟨rfl, -⟩
  · exact hitem
  · obtain ⟨body, htext, -⟩ := h
    obtain ⟨rfl, -⟩ := List.cons.inj htext
    exact absurd hc (by decide)

/-- A piece that is an item does not start with a separator. -/
theorem Category.Labels.not_isSeparator {category : Category} {c : Char} {more : List Char}
    (h : category.Labels (c :: more)) (hitem : category.isItem = true) :
    isSeparator c = false := by
  rw [Bool.eq_false_iff]
  intro hc
  rcases h with hspells | ⟨d, -, htext, hd⟩
  · rw [hspells.not_isItem hc] at hitem
    exact Bool.false_ne_true hitem
  · obtain rfl : c = d := (List.cons.inj htext).1
    exact hd (isWord_of_isSeparator hc)

/-- A separator ends an item, except that a comment takes in spaces and tabs. -/
theorem Category.Labels.settled_of_separator {category : Category} {text rest : List Char}
    {c : Char} (h : category.Labels text) (hitem : category.isItem = true)
    (hhead : rest.head? = some c) (hc : isSeparator c = true)
    (hcomment : category = .token .comment → isCommentChar c = false) : Settled text rest := by
  intro d hd
  obtain rfl : c = d := Option.some.inj (hhead.symm.trans hd)
  rintro ⟨longer, hspells⟩
  obtain ⟨first, more, rfl⟩ := List.exists_cons_of_ne_nil h.ne_nil
  rcases hspells.of_mem_separator hc (by simp) with hnone | ⟨rfl, hchar⟩
  · -- A run of separators starts with one, and the item would start with it.
    have hfirst := h.not_isSeparator hitem
    have hall := Category.Labels.allSeparators (Or.inl hspells) hnone first (by simp)
    rw [hall] at hfirst
    exact Bool.false_ne_true hfirst.symm
  · -- Without the separator it is a comment still.
    obtain ⟨body, htext, hbody⟩ := hspells
    obtain ⟨rfl, hmore⟩ := List.cons.inj htext
    have hshorter : Category.Labels (.token .comment) ('#' :: more) := by
      refine Or.inl ⟨more, rfl, ?_⟩
      intro d hd
      exact hbody d (hmore ▸ List.mem_append_left _ hd)
    rw [hcomment (h.unique hshorter)] at hchar
    exact Bool.false_ne_true hchar

/-- What stands behind a comment is no part of it. -/
theorem Settled.not_isCommentChar {text rest : List Char} {c : Char} (h : Settled text rest)
    (hcomment : IsComment text) (hhead : rest.head? = some c) : isCommentChar c = false := by
  rw [Bool.eq_false_iff]
  intro hc
  obtain ⟨body, rfl, hbody⟩ := hcomment
  refine h c hhead ⟨.token .comment, body ++ [c], rfl, ?_⟩
  intro d hd
  rcases List.mem_append.mp hd with hd | hd
  · exact hbody d hd
  · rw [List.mem_singleton.mp hd]
    exact hc

end ExprScan
