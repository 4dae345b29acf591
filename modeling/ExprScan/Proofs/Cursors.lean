import ExprScan.Proofs.FeedRuns
import ExprScan.Proofs.Stream

/-! # Cursors from anywhere

  A step can be asked for at any cursor, also at one that no scan comes to.
  What it comes to is settled by the offset first: past the end and inside a
  character there is nothing to look at, and at the end there is nothing
  left. Everywhere else a piece stands at the cursor, and the step passes it,
  unless it is a run of line feeds for which the line number has no room.

  `Stepping` lists these outcomes, and `step_stepping` says that there are no
  others. A cursor that a step returns stands between two characters again
  (`Step.onward`), so a scan that starts between two characters is never asked
  to cut one in two (`fault_of_mem_steps`).
-/

namespace ExprScan

/-! ### Cutting a text anywhere -/

namespace Text

/-- What cutting a text at an offset comes to. -/
inductive Cutting (offset : Nat) (text : List Char) : Except Fault (List Char) → Prop where
  /-- The offset is between two characters. -/
  | between {first rest : List Char} (htext : text = first ++ rest)
      (hlength : byteLength first = offset) : Cutting offset text (.ok rest)
  /-- The offset is past the end. -/
  | past (hpast : byteLength text < offset) : Cutting offset text (.error .outOfBounds)
  /-- The offset is inside a character. -/
  | inside (hless : offset < byteLength text)
      (hnone : ∀ first rest, text = first ++ rest → byteLength first ≠ offset) :
      Cutting offset text (.error .insideCharacter)

theorem dropBytes_cutting (offset : Nat) (text : List Char) :
    Cutting offset text (dropBytes offset text) := by
  fun_induction dropBytes offset text with
  | case1 text => exact .between (List.nil_append text).symm rfl
  | case2 offset => exact .past (Nat.succ_pos offset)
  | case3 offset c text hc ih =>
    -- Behind the first character the rest of the text is cut.
    generalize dropBytes (offset + 1 - c.utf8Size) text = result at ih ⊢
    cases ih with
    | @between first rest htext hlength =>
      have hsplit : c :: text = (c :: first) ++ rest := by rw [htext, List.cons_append]
      refine .between hsplit ?_
      rw [byteLength_cons]
      omega
    | past hpast =>
      refine .past ?_
      rw [byteLength_cons]
      omega
    | inside hless hnone =>
      refine .inside (by rw [byteLength_cons]; omega) ?_
      intro first rest htext
      cases first with
      | nil => exact (Nat.succ_ne_zero offset).symm
      | cons d first =>
        obtain ⟨rfl, hrest⟩ := List.cons.inj htext
        have hfirst := hnone first rest hrest
        rw [byteLength_cons]
        omega
  | case4 offset c text hc =>
    refine .inside (by rw [byteLength_cons]; omega) ?_
    intro first rest htext
    cases first with
    | nil => exact (Nat.succ_ne_zero offset).symm
    | cons d first =>
      obtain ⟨rfl, -⟩ := List.cons.inj htext
      rw [byteLength_cons]
      omega

/-- A valid position of a string is a place between two characters of its text. -/
theorem isValid_iff {source : String} {offset : Nat} :
    (String.Pos.Raw.mk offset).IsValid source ↔
      ∃ before rest, source.toList = before ++ rest ∧ byteLength before = offset := by
  rw [String.Pos.Raw.isValid_iff_exists_append]
  constructor
  · rintro ⟨first, second, rfl, hoffset⟩
    refine ⟨first.toList, second.toList, String.toList_append, ?_⟩
    rw [byteLength_toList]
    exact (congrArg String.Pos.Raw.byteIdx hoffset).symm
  · rintro ⟨before, rest, hsource, rfl⟩
    refine ⟨String.ofList before, String.ofList rest, ?_, ?_⟩
    · rw [← String.ofList_append, ← hsource, String.ofList_toList]
    · rw [← String.toList_ofList (l := before), byteLength_toList, String.ofList_toList]
      rfl

end Text

/-! ### Passing a piece -/

theorem FeedRun.isValid {source : String} {offset count : Nat} (h : FeedRun source offset count) :
    (String.Pos.Raw.mk offset).IsValid source := by
  obtain ⟨before, behind, hsource, hoffset, -⟩ := h.exists_around
  exact Text.isValid_iff.mpr ⟨before, _, hsource, hoffset⟩

theorem FeedRun.add_le {source : String} {offset count : Nat} (h : FeedRun source offset count) :
    offset + count ≤ source.utf8ByteSize := by
  obtain ⟨before, behind, hsource, hoffset, -⟩ := h.exists_around
  rw [← Text.byteLength_toList, hsource, Text.byteLength_append, Text.byteLength_append,
    byteLength_replicate_lineFeed]
  omega

/-- What a step that passes something looks like: from between two characters it goes on to
    another such place, further on in the source, and the line number does not go down. -/
structure Step.Onward (source : String) (pos : Position) (found : Step) : Prop where
  isValid : (String.Pos.Raw.mk pos.offset).IsValid source
  isValid_next : (String.Pos.Raw.mk found.next.offset).IsValid source
  offset_lt : pos.offset < found.next.offset
  offset_le : found.next.offset ≤ source.utf8ByteSize
  line_le : pos.line ≤ found.next.line

/-- A step over a piece goes on. -/
theorem Piece.onward_of_step {source : String} {pos : Position} {before : List Char}
    {piece : Piece} {found : Step} (hsource : source.toList = before ++ (piece.text ++ piece.rest))
    (hoffset : Text.byteLength before = pos.offset) (hlabels : piece.category.Labels piece.text)
    (hstep : piece.step pos = .ok found) : found.Onward source pos := by
  have hline := Piece.toNat_line_of_step hlabels hstep
  have hpos := hlabels.byteLength_pos
  have hsize : source.utf8ByteSize
      = pos.offset + (Text.byteLength piece.text + Text.byteLength piece.rest) := by
    rw [← Text.byteLength_toList, hsource, Text.byteLength_append, Text.byteLength_append, hoffset]
  have hnext : found.next.offset = pos.offset + Text.byteLength piece.text := by
    rw [Piece.eq_of_step hlabels hstep, Position.offset_after]
  refine ⟨?_, ?_, ?_, ?_, ?_⟩
  · exact Text.isValid_iff.mpr ⟨before, _, hsource, hoffset⟩
  · refine Text.isValid_iff.mpr ⟨before ++ piece.text, piece.rest, ?_, ?_⟩
    · rw [hsource, List.append_assoc]
    · rw [Text.byteLength_append, hoffset, hnext]
  · omega
  · omega
  · rw [UInt32.le_iff_toNat_le]
    omega

/-! ### What a step comes to -/

/-- What a step from a cursor comes to. -/
inductive Stepping (source : String) (pos : Position) : Except Fault (Option Step) → Prop where
  /-- The cursor is at the end. -/
  | ended (hend : pos.offset = source.utf8ByteSize) : Stepping source pos (.ok none)
  /-- Something is passed. -/
  | passed {found : Step} (honward : found.Onward source pos) :
      Stepping source pos (.ok (some found))
  /-- At a run of line feeds the line number has no room. -/
  | full {count : Nat} (hrun : FeedRun source pos.offset count)
      (hfull : UInt32.size ≤ pos.line.toNat + count % UInt32.size) :
      Stepping source pos (.error .lineOverflow)
  /-- The cursor is past the end. -/
  | past (hpast : source.utf8ByteSize < pos.offset) : Stepping source pos (.error .outOfBounds)
  /-- The cursor is inside a character. -/
  | inside (hless : pos.offset < source.utf8ByteSize)
      (hnone : ¬ (String.Pos.Raw.mk pos.offset).IsValid source) :
      Stepping source pos (.error .insideCharacter)

/-- A step over the first piece behind the cursor passes it, or the piece is a run of line
    feeds that the line number has no room for. -/
theorem Piece.stepping {source : String} {pos : Position} {before rest : List Char}
    {piece : Piece} (hsource : source.toList = before ++ rest)
    (hoffset : Text.byteLength before = pos.offset) (hfirst : Piece.first? rest = some piece) :
    Stepping source pos ((piece.step pos).map some) := by
  have hlabels := Piece.labels_of_first? hfirst
  rw [← Piece.text_append_rest hfirst] at hsource
  cases hstep : piece.step pos with
  | ok found => exact .passed (Piece.onward_of_step hsource hoffset hlabels hstep)
  | error fault =>
    rw [Piece.step_eq hlabels] at hstep
    split at hstep
    · exact nomatch hstep
    · next hfull =>
      obtain rfl := Except.error.inj hstep
      have hbreaks : piece.category = .lineBreaks := by
        -- A piece of another category leaves the line number as it is.
        by_contra hother
        have hline := pos.line.toNat_lt
        rw [List.count_eq_zero_of_not_mem (hlabels.lineFeed_notMem hother)] at hfull
        exact hfull (by simpa using hline)
      rw [hbreaks] at hlabels
      have hrun := feedRun_of_labels hlabels (Piece.settled_of_first? hfirst) hsource
      rw [hlabels.length_eq_count, UInt32.toNat_ofNat'] at hfull
      rw [hoffset] at hrun
      exact .full hrun (Nat.le_of_not_lt hfull)

/-- A step comes to one of five outcomes. -/
theorem step_stepping (source : String) (pos : Position) :
    Stepping source pos (step source pos) := by
  have hcutting := Text.dropBytes_cutting pos.offset source.toList
  cases hcut : Text.dropBytes pos.offset source.toList with
  | error fault =>
    have hstep : step source pos = .error fault := by
      unfold step
      rw [hcut]
      rfl
    rw [hcut] at hcutting
    rw [hstep]
    cases hcutting with
    | past hpast =>
      rw [Text.byteLength_toList] at hpast
      exact .past hpast
    | inside hless hnone =>
      rw [Text.byteLength_toList] at hless
      refine .inside hless ?_
      intro hvalid
      obtain ⟨before, rest, hsource, hoffset⟩ := Text.isValid_iff.mp hvalid
      exact hnone before rest hsource hoffset
  | ok rest =>
    rw [hcut] at hcutting
    cases hcutting with
    | @between before _ hsource hoffset =>
      rw [step_eq hsource hoffset.symm]
      cases hfirst : Piece.first? rest with
      | some piece => exact Piece.stepping hsource hoffset hfirst
      | none =>
        cases rest with
        | cons c more => exact nomatch hfirst
        | nil =>
          rw [List.append_nil] at hsource
          refine .ended ?_
          rw [← hoffset, ← hsource, Text.byteLength_toList]

section outcomes

variable {source : String} {pos : Position}

/-- Between two characters a step can only run out of line numbers. -/
theorem Stepping.fault_eq {fault : Fault} (h : Stepping source pos (.error fault))
    (hvalid : (String.Pos.Raw.mk pos.offset).IsValid source) : fault = .lineOverflow := by
  cases h with
  | full => rfl
  | inside hless hnone => exact absurd hvalid hnone
  | past hpast =>
    have hle : pos.offset ≤ source.utf8ByteSize := hvalid.le_rawEndPos
    omega

theorem step_outOfBounds_iff :
    step source pos = .error .outOfBounds ↔ source.utf8ByteSize < pos.offset := by
  have h := step_stepping source pos
  constructor
  · intro hstep
    rw [hstep] at h
    cases h with
    | past hpast => exact hpast
  · intro hpast
    -- Every other outcome has the cursor within the source.
    generalize step source pos = outcome at h ⊢
    cases h with
    | past => rfl
    | ended hend => omega
    | inside hless => omega
    | full hrun =>
      have hle := hrun.add_le
      omega
    | passed honward =>
      have hlt := honward.offset_lt
      have hle := honward.offset_le
      omega

theorem step_insideCharacter_iff :
    step source pos = .error .insideCharacter ↔
      pos.offset < source.utf8ByteSize ∧ ¬ (String.Pos.Raw.mk pos.offset).IsValid source := by
  have h := step_stepping source pos
  constructor
  · intro hstep
    rw [hstep] at h
    cases h with
    | inside hless hnone => exact ⟨hless, hnone⟩
  · rintro ⟨hless, hnone⟩
    -- Before the end, every other outcome has the cursor between two characters.
    generalize step source pos = outcome at h ⊢
    cases h with
    | inside => rfl
    | ended hend => omega
    | past hpast => omega
    | full hrun => exact absurd hrun.isValid hnone
    | passed honward => exact absurd honward.isValid hnone

theorem step_lineOverflow_iff :
    step source pos = .error .lineOverflow ↔
      ∃ count, FeedRun source pos.offset count ∧
        UInt32.size ≤ pos.line.toNat + count % UInt32.size := by
  constructor
  · intro hstep
    have h := step_stepping source pos
    rw [hstep] at h
    cases h with
    | full hrun hfull => exact ⟨_, hrun, hfull⟩
  · rintro ⟨count, hrun, hfull⟩
    exact step_of_feedRun_of_full hrun hfull

theorem step_none_iff : step source pos = .ok none ↔ pos.offset = source.utf8ByteSize := by
  constructor
  · intro hstep
    have h := step_stepping source pos
    rw [hstep] at h
    cases h with
    | ended hend => exact hend
  · intro hend
    exact step_end (by rw [hend, Text.byteLength_toList])

theorem Step.onward {found : Step} (h : step source pos = .ok (some found)) :
    found.Onward source pos := by
  have hstepping := step_stepping source pos
  rw [h] at hstepping
  cases hstepping with
  | passed honward => exact honward

/-- Scanning on from between two characters can only run out of line numbers: each step leads
    to such a place again. -/
theorem fault_of_mem_steps {limit : Nat} {fault : Fault}
    (hvalid : (String.Pos.Raw.mk pos.offset).IsValid source)
    (hmem : .error fault ∈ steps source pos limit) : fault = .lineOverflow := by
  induction limit generalizing pos with
  | zero => simp [steps] at hmem
  | succ limit ih =>
    have hstepping := step_stepping source pos
    rw [steps] at hmem
    split at hmem
    · next found hstep =>
      rcases List.mem_cons.mp hmem with hhead | hmem
      · exact nomatch hhead
      · exact ih (Step.onward hstep).isValid_next hmem
    · next last =>
      rw [← List.mem_singleton.mp hmem] at hstepping
      exact hstepping.fault_eq hvalid

end outcomes

/-- **Cursors from anywhere**: at any line and offset of a source of less than `2 ^ 32` bytes, a
    step fails exactly if the offset is past the end, inside a character, or at a run of line
    feeds that would take the line number out of 32 bits. There is nothing left exactly at the
    end. Otherwise the step goes on to a place between two characters, so scanning on from such
    a place never names a place that is none. -/
theorem steps_from_any_cursor (source : String) (hsize : source.utf8ByteSize < 4294967296)
    (pos : Position) :
    (step source pos = .error .outOfBounds ↔ source.utf8ByteSize < pos.offset) ∧
    (step source pos = .error .insideCharacter ↔
      pos.offset < source.utf8ByteSize ∧ ¬ (String.Pos.Raw.mk pos.offset).IsValid source) ∧
    (step source pos = .error .lineOverflow ↔
      ∃ count, FeedRun source pos.offset count ∧ 4294967295 < pos.line.toNat + count) ∧
    (∀ fault, step source pos = .error fault →
      fault = .outOfBounds ∨ fault = .insideCharacter ∨ fault = .lineOverflow) ∧
    (step source pos = .ok none ↔ pos.offset = source.utf8ByteSize) ∧
    (∀ found, step source pos = .ok (some found) → found.Onward source pos) ∧
    ((String.Pos.Raw.mk pos.offset).IsValid source →
      ∀ limit fault, .error fault ∈ steps source pos limit → fault = .lineOverflow) := by
  refine ⟨step_outOfBounds_iff, step_insideCharacter_iff, ?_, ?_, step_none_iff, ?_, ?_⟩
  · rw [step_lineOverflow_iff]
    refine exists_congr fun count => and_congr_right fun hrun => ?_
    -- The whole length of the run is kept, since the source is short.
    have hle := hrun.add_le
    have hwhole : count % UInt32.size = count := Nat.mod_eq_of_lt (by
      show count < 4294967296
      omega)
    rw [hwhole]
    exact Nat.lt_iff_add_one_le.symm
  · intro fault hstep
    have h := step_stepping source pos
    rw [hstep] at h
    cases h with
    | past => exact Or.inl rfl
    | inside => exact Or.inr (Or.inl rfl)
    | full => exact Or.inr (Or.inr rfl)
  · intro found hstep
    exact Step.onward hstep
  · intro hvalid limit fault hmem
    exact fault_of_mem_steps hvalid hmem

/-- In `é` and two line feeds, a step from the last line but one fails at offset 2 and at
    offset 1, and scanning on from the start does not cut `é` in two. -/
theorem steps_from_any_cursor_last_line :
    (String.ofList ['é', '\n', '\n']).utf8ByteSize < 4294967296 ∧
    step (String.ofList ['é', '\n', '\n']) ⟨4294967294, 2⟩ = .error .lineOverflow ∧
    step (String.ofList ['é', '\n', '\n']) ⟨4294967294, 1⟩ = .error .insideCharacter ∧
    ∀ limit fault, .error fault ∈ steps (String.ofList ['é', '\n', '\n']) ⟨4294967294, 0⟩ limit →
      fault = .lineOverflow := by
  have hsize : (String.ofList ['é', '\n', '\n']).utf8ByteSize = 4 := by
    rw [← Text.byteLength_toList, String.toList_ofList]
    rfl
  have hshort : (String.ofList ['é', '\n', '\n']).utf8ByteSize < 4294967296 := by
    rw [hsize]
    decide
  have hrun : FeedRun (String.ofList ['é', '\n', '\n']) 2 2 := by
    refine ⟨by decide, ['é'], [], ?_, rfl, by simp⟩
    rw [String.toList_ofList]
    rfl
  have hinside : ¬ (String.Pos.Raw.mk 1).IsValid (String.ofList ['é', '\n', '\n']) := by
    intro hvalid
    obtain ⟨before, rest, hsource, hoffset⟩ := Text.isValid_iff.mp hvalid
    rw [String.toList_ofList] at hsource
    cases before with
    | nil => exact nomatch hoffset
    | cons c before =>
      obtain ⟨rfl, -⟩ := List.cons.inj hsource
      rw [Text.byteLength_cons, show 'é'.utf8Size = 2 from rfl] at hoffset
      omega
  have hstart : (String.Pos.Raw.mk 0).IsValid (String.ofList ['é', '\n', '\n']) :=
    Text.isValid_iff.mpr ⟨[], _, rfl, rfl⟩
  obtain ⟨-, -, hfull, -⟩ := steps_from_any_cursor _ hshort ⟨4294967294, 2⟩
  obtain ⟨-, hcut, -⟩ := steps_from_any_cursor _ hshort ⟨4294967294, 1⟩
  obtain ⟨-, -, -, -, -, -, hsafe⟩ := steps_from_any_cursor _ hshort ⟨4294967294, 0⟩
  exact ⟨hshort, hfull.mpr ⟨2, hrun, by decide⟩, hcut.mpr ⟨by rw [hsize]; decide, hinside⟩,
    hsafe hstart⟩

end ExprScan
