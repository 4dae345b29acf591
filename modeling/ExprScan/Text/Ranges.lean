/-! # Sets of characters given by ranges

  A property of characters that a standard lists as data is kept as closed
  ranges of code points, ascending and apart. A search through them ends at
  the first range that starts beyond the code point, and it misses none by
  that (`contains_iff`).
-/

namespace ExprScan.Text

/-- Whether closed ranges ascend from a code point on and are apart. -/
def ascend : List (Nat × Nat) → Nat → Bool
  | [], _ => true
  | (first, last) :: more, least => least ≤ first && first ≤ last && ascend more (last + 1)

/-- Closed ranges of code points, ascending and apart. -/
structure Ranges where
  pairs : List (Nat × Nat)
  ascending : ascend pairs 0 = true

/-- Whether a code point lies in one of the ranges, which ascend. -/
def search : List (Nat × Nat) → Nat → Bool
  | [], _ => false
  | (first, last) :: more, n => first ≤ n && (n ≤ last || search more n)

/-- Whether a code point lies in one of the ranges. -/
def Ranges.contains (ranges : Ranges) (n : Nat) : Bool := search ranges.pairs n

theorem le_of_mem_ascend {pairs : List (Nat × Nat)} {least : Nat} (h : ascend pairs least = true)
    {pair : Nat × Nat} (hpair : pair ∈ pairs) : least ≤ pair.1 := by
  induction pairs generalizing least with
  | nil => exact absurd hpair List.not_mem_nil
  | cons head more ih =>
    simp only [ascend, Bool.and_eq_true, decide_eq_true_eq] at h
    obtain ⟨⟨hleast, hrange⟩, hmore⟩ := h
    rcases List.mem_cons.mp hpair with rfl | hpair
    · exact hleast
    · have hbeyond := ih hmore hpair
      omega

theorem search_iff {pairs : List (Nat × Nat)} {least : Nat} (h : ascend pairs least = true)
    (n : Nat) : search pairs n = true ↔ ∃ pair ∈ pairs, pair.1 ≤ n ∧ n ≤ pair.2 := by
  induction pairs generalizing least with
  | nil => simp [search]
  | cons head more ih =>
    simp only [ascend, Bool.and_eq_true, decide_eq_true_eq] at h
    obtain ⟨⟨-, hrange⟩, hmore⟩ := h
    simp only [search, Bool.and_eq_true, Bool.or_eq_true, decide_eq_true_eq, ih hmore,
      List.mem_cons, exists_eq_or_imp]
    constructor
    · rintro ⟨hfirst, hlast | hfound⟩
      · exact Or.inl ⟨hfirst, hlast⟩
      · exact Or.inr hfound
    · rintro (⟨hfirst, hlast⟩ | ⟨pair, hpair, hfirst, hlast⟩)
      · exact ⟨hfirst, Or.inl hlast⟩
      · -- The range that holds the code point starts behind this one.
        have hbehind := le_of_mem_ascend hmore hpair
        exact ⟨by omega, Or.inr ⟨pair, hpair, hfirst, hlast⟩⟩

/-- A code point is found if one of the ranges holds it. -/
theorem Ranges.contains_iff (ranges : Ranges) (n : Nat) :
    ranges.contains n = true ↔ ∃ pair ∈ ranges.pairs, pair.1 ≤ n ∧ n ≤ pair.2 :=
  search_iff ranges.ascending n

end ExprScan.Text
