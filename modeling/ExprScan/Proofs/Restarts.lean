import ExprScan.Proofs.Coverage

/-! # Starting in the midst of a source

  A scan can be started between any two characters, also where a scan from the
  start would be within a token. It finds what a scan of the rest by itself
  finds, moved along by the place it was started at (`forall₂_moved`), and what
  stands before that place has no part in it (`steps_congr`).

  Moving along is said in natural numbers, so that it does not hide a line
  number that has turned over.
-/

namespace ExprScan

/-! ### The same found further on -/

/-- A place is a number of lines and bytes further on than another. -/
structure Position.Moved (lines bytes : Nat) (pos other : Position) : Prop where
  line_eq : other.line.toNat = pos.line.toNat + lines
  offset_eq : other.offset = pos.offset + bytes

/-- The same was found a number of lines and bytes further on. -/
inductive Scanned.Moved (lines bytes : Nat) : Scanned → Scanned → Prop where
  | token {kind : Kind} {value : Value} {line other : UInt32} {start stop : Nat}
      (hline : other.toNat = line.toNat + lines) :
      Moved lines bytes (.token ⟨kind, value, line, start, stop⟩)
        (.token ⟨kind, value, other, start + bytes, stop + bytes⟩)
  | illegal {character : Char} {pos other : Position} (hmoved : pos.Moved lines bytes other) :
      Moved lines bytes (.illegal ⟨character, pos⟩) (.illegal ⟨character, other⟩)
  | blank : Moved lines bytes .blank .blank
  | lineBreaks (count : UInt32) : Moved lines bytes (.lineBreaks count) (.lineBreaks count)

/-- A step finds what another step finds a number of lines and bytes before, and it stops as
    much further on. -/
structure Step.Moved (lines bytes : Nat) (found other : Step) : Prop where
  scanned : found.scanned.Moved lines bytes other.scanned
  next : found.next.Moved lines bytes other.next

/-- What a scan finds, step after step, from a cursor to the end of the source. -/
def FindsAll (source : String) (pos : Position) (found : List Step) : Prop :=
  ∀ extra, steps source pos (found.length + 1 + extra)
    = found.map (fun one => .ok (some one)) ++ [.ok none]

section moved

variable {lines bytes : Nat} {pos other : Position} {text : List Char}

/-- Two cursors that move over the same text stay apart by as much. -/
theorem Position.Moved.after (h : pos.Moved lines bytes other) (hpos : pos.HasRoom text)
    (hother : other.HasRoom text) : (pos.after text).Moved lines bytes (other.after text) := by
  have hline := h.line_eq
  have hoffset := h.offset_eq
  constructor
  · rw [Position.toNat_line_after hpos, Position.toNat_line_after hother]
    omega
  · rw [Position.offset_after, Position.offset_after]
    omega

/-- The cursor that is behind has room where the one further on has room. -/
theorem Position.Moved.hasRoom (h : pos.Moved lines bytes other) (hother : other.HasRoom text) :
    pos.HasRoom text := by
  have hline := h.line_eq
  unfold HasRoom at *
  omega

/-- What is found of a piece moves along with the place of the piece. -/
theorem Position.Moved.unit (h : pos.Moved lines bytes other) (category : Category)
    (text : List Char) : (category.unit pos text).Moved lines bytes (category.unit other text) := by
  cases category with
  | blank => exact .blank
  | lineBreaks => exact .lineBreaks _
  | illegal character => exact .illegal h
  | token kind =>
    have hstop : other.offset + Text.byteLength text
        = pos.offset + Text.byteLength text + bytes := by
      rw [h.offset_eq, Nat.add_right_comm]
    show Scanned.Moved lines bytes _ (.token ⟨kind, kind.valueOf text, other.line, other.offset,
      other.offset + Text.byteLength text⟩)
    rw [hstop, h.offset_eq]
    exact .token h.line_eq

/-- A text that stands further on falls into the same pieces, and what is found of each moves
    along. -/
theorem forall₂_moved (h : pos.Moved lines bytes other) (hroom : other.HasRoom text) :
    List.Forall₂ (Step.Moved lines bytes) ((passages pos text).map Passage.found)
      ((passages other text).map Passage.found) := by
  induction text using Piece.text_induction generalizing pos other with
  | nil =>
    rw [passages_nil, passages_nil]
    exact .nil
  | piece category text rest hlabels hsettled ih =>
    have hafter := h.after (h.hasRoom hroom.left) hroom.left
    rw [passages_append hlabels hsettled, passages_append hlabels hsettled]
    exact .cons ⟨h.unit category text, hafter⟩ (ih hafter hroom.right)

end moved

/-! ### Scanning on from a place -/

section from_place

variable {source : String} {pos : Position} {before rest : List Char}

/-- What a scan finds from a place on is what is found of the pieces there. -/
theorem findsAll_passages (hsource : source.toList = before ++ rest)
    (hoffset : pos.offset = Text.byteLength before) (hroom : pos.HasRoom rest) :
    FindsAll source pos ((passages pos rest).map Passage.found) := by
  intro extra
  have hsteps := (Passage.trail hsource hoffset hroom).steps_eq extra
  rw [List.length_map, List.map_map] at hsteps ⊢
  exact hsteps

/-- A step that finds something passes a first part of what stands behind the cursor. -/
theorem exists_passed_of_step {found : Step} (hsource : source.toList = before ++ rest)
    (hoffset : pos.offset = Text.byteLength before) (hstep : step source pos = .ok (some found)) :
    ∃ word behind, rest = word ++ behind ∧ found.next = pos.after word := by
  rw [step_eq hsource hoffset] at hstep
  cases hfirst : Piece.first? rest with
  | none =>
    rw [hfirst] at hstep
    exact nomatch hstep
  | some piece =>
    simp only [hfirst] at hstep
    cases hpiece : piece.step pos with
    | error fault =>
      rw [hpiece] at hstep
      exact nomatch hstep
    | ok other =>
      rw [hpiece] at hstep
      obtain rfl := Option.some.inj (Except.ok.inj hstep)
      refine ⟨piece.text, piece.rest, (Piece.text_append_rest hfirst).symm, ?_⟩
      rw [Piece.eq_of_step (Piece.labels_of_first? hfirst) hpiece]

/-- What stands before a cursor has no part in what is found from there on. -/
theorem steps_congr {other : String} {ahead : List Char} (hsource : source.toList = before ++ rest)
    (hother : other.toList = ahead ++ rest) (hbefore : pos.offset = Text.byteLength before)
    (hahead : pos.offset = Text.byteLength ahead) (limit : Nat) :
    steps source pos limit = steps other pos limit := by
  induction limit generalizing pos before ahead rest with
  | zero => rfl
  | succ limit ih =>
    have hsame : step other pos = step source pos := by
      rw [step_eq hother hahead, step_eq hsource hbefore]
    rw [steps, steps, hsame]
    cases hstep : step source pos with
    | error fault => rfl
    | ok outcome =>
      cases outcome with
      | none => rfl
      | some found =>
        -- What was passed stands before the next cursor, in both sources.
        obtain ⟨word, behind, rfl, hnext⟩ := exists_passed_of_step hsource hbefore hstep
        rw [← List.append_assoc] at hsource hother
        show .ok (some found) :: steps source found.next limit
          = .ok (some found) :: steps other found.next limit
        congr 1
        apply ih hsource hother
        · rw [hnext, Position.offset_after, Text.byteLength_append, hbefore]
        · rw [hnext, Position.offset_after, Text.byteLength_append, hahead]

end from_place

/-- **Restarting**: a scan can be started between any two characters of a source, on any line
    from the first on, as long as the lines behind can be numbered. It finds to the end what a
    scan of the rest of the source from the start finds, with all offsets moved along by what
    stands before and all lines by those above. Nothing else of what stands before matters. -/
theorem scanning_restarts_anywhere (source before rest : String) (pos : Position)
    (hsource : source = before ++ rest) (hoffset : pos.offset = before.utf8ByteSize)
    (hfirst : 1 ≤ pos.line.toNat)
    (hlines : pos.line.toNat + rest.toList.count '\n' ≤ 4294967295) :
    ∃ found moved, FindsAll rest .start found ∧ FindsAll source pos moved ∧
      List.Forall₂ (Step.Moved (pos.line.toNat - 1) pos.offset) found moved ∧
      ∀ other : String, other.utf8ByteSize = before.utf8ByteSize →
        ∀ limit, steps (other ++ rest) pos limit = steps source pos limit := by
  subst hsource
  have htext : (before ++ rest).toList = before.toList ++ rest.toList := String.toList_append
  have hbefore : pos.offset = Text.byteLength before.toList := by
    rw [hoffset, Text.byteLength_toList]
  have hroom : pos.HasRoom rest.toList := by
    show pos.line.toNat + rest.toList.count '\n' < 4294967296
    omega
  have hmoved : Position.start.Moved (pos.line.toNat - 1) pos.offset pos := by
    constructor
    · show pos.line.toNat = 1 + (pos.line.toNat - 1)
      omega
    · exact (Nat.zero_add pos.offset).symm
  refine ⟨_, _, findsAll_passages (List.nil_append _).symm rfl (hmoved.hasRoom hroom),
    findsAll_passages htext hbefore hroom, forall₂_moved hmoved hroom, ?_⟩
  intro other hother limit
  have hahead : pos.offset = Text.byteLength other.toList := by
    rw [hoffset, ← hother, Text.byteLength_toList]
  exact steps_congr String.toList_append htext hahead hbefore limit

/-- In `é12` and a line feed, a scan started on line 7 between the two digits finds `2` and then
    the line feed. -/
theorem scanning_restarts_anywhere_within_number :
    ∃ pos : Position, pos.offset = (String.ofList ['é', '1']).utf8ByteSize ∧
      1 ≤ pos.line.toNat ∧
      pos.line.toNat + (String.ofList ['2', '\n']).toList.count '\n' ≤ 4294967295 ∧
      ∃ found moved, FindsAll (String.ofList ['2', '\n']) .start found ∧
        FindsAll (String.ofList ['é', '1'] ++ String.ofList ['2', '\n']) pos moved ∧
        List.Forall₂ (Step.Moved 6 3) found moved := by
  have hoffset : 3 = (String.ofList ['é', '1']).utf8ByteSize := by
    rw [← Text.byteLength_toList, String.toList_ofList]
    rfl
  have hlines : 7 + (String.ofList ['2', '\n']).toList.count '\n' ≤ 4294967295 := by
    rw [String.toList_ofList]
    decide
  obtain ⟨found, moved, hfound, hmoved, hall, -⟩ :=
    scanning_restarts_anywhere _ (String.ofList ['é', '1']) (String.ofList ['2', '\n']) ⟨7, 3⟩ rfl
      hoffset (by decide) hlines
  exact ⟨⟨7, 3⟩, hoffset, by decide, hlines, found, moved, hfound, hmoved, hall⟩

end ExprScan
