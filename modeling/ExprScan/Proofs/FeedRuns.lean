import ExprScan.Proofs.Step

/-! # Runs of line feeds

  A run of line feeds is passed in one step, however long it is. Its length
  has no bound, but the count that the step reports has 32 bits, and so has
  the length that is added to the line number. What does not fit is lost
  before the addition is checked, so the check sees the remainder only.

  `step_of_feedRun` says what a step over a run comes to. Count and line are
  right as long as the length of the run fits in 32 bits. A longer run is
  counted wrongly, unless the remainder happens to overflow the line number.
-/

namespace ExprScan

/-- A run of line feeds at an offset of a source, up to where it ends. -/
structure FeedRun (source : String) (offset count : Nat) : Prop where
  count_pos : 0 < count
  exists_around : ∃ before behind,
    source.toList = before ++ (List.replicate count '\n' ++ behind) ∧
    Text.byteLength before = offset ∧ behind.head? ≠ some '\n'

/-! ### The piece of a run -/

theorem byteLength_replicate_lineFeed (count : Nat) :
    Text.byteLength (List.replicate count '\n') = count := by
  induction count with
  | zero => rfl
  | succ count ih =>
    rw [List.replicate_succ, Text.byteLength_cons, ih, Nat.add_comm]
    rfl

theorem labels_replicate_lineFeed {count : Nat} (h : 0 < count) :
    Category.Labels .lineBreaks (List.replicate count '\n') := by
  refine Or.inl ⟨?_, ?_⟩
  · rw [ne_eq, List.replicate_eq_nil_iff]
    exact Nat.ne_of_gt h
  · intro c hc
    rw [List.eq_of_mem_replicate hc]
    rfl

/-- A run of line feeds goes on with line feeds only. -/
theorem settled_replicate_lineFeed {count : Nat} {behind : List Char} (h : 0 < count)
    (hbehind : behind.head? ≠ some '\n') : Settled (List.replicate count '\n') behind := by
  intro c hc
  rintro ⟨category, hspells⟩
  have hfeed : '\n' ∈ List.replicate count '\n' ++ [c] :=
    List.mem_append_left _ (List.mem_replicate.mpr ⟨Nat.ne_of_gt h, rfl⟩)
  -- With one more character it would still hold a line feed, and only a longer run does.
  rcases hspells.of_mem_separator (by decide) hfeed with hitem | ⟨-, hchar⟩
  · match category, hitem, hspells with
    | .blank, _, hblank => exact absurd (hblank.2 _ hfeed) (by decide)
    | .lineBreaks, _, hbreaks =>
      have hc' : c = '\n' := by simpa [isLineBreak] using hbreaks.2 c (by simp)
      rw [hc'] at hc
      exact hbehind hc
  · exact absurd hchar (by decide)

/-- A run of line feeds is the first piece of a text that starts with it. -/
theorem first?_replicate_lineFeed {count : Nat} {behind : List Char} (h : 0 < count)
    (hbehind : behind.head? ≠ some '\n') :
    Piece.first? (List.replicate count '\n' ++ behind)
      = some ⟨.lineBreaks, List.replicate count '\n', behind⟩ :=
  Piece.first?_append_iff.mpr
    ⟨labels_replicate_lineFeed h, settled_replicate_lineFeed h hbehind⟩

/-- A piece of line breaks is a run. -/
theorem feedRun_of_labels {source : String} {before text rest : List Char}
    (hlabels : Category.Labels .lineBreaks text) (hsettled : Settled text rest)
    (hsource : source.toList = before ++ (text ++ rest)) :
    FeedRun source (Text.byteLength before) text.length := by
  have hcount := List.count_eq_length.mp hlabels.length_eq_count
  have htext : text = List.replicate text.length '\n' :=
    List.eq_replicate_of_mem fun c hc => (hcount c hc).symm
  refine ⟨List.length_pos_iff.mpr hlabels.ne_nil, before, rest, ?_, rfl, ?_⟩
  · rw [← htext, hsource]
  · intro hhead
    apply hsettled _ hhead
    refine ⟨.lineBreaks, by simp, ?_⟩
    intro c hc
    rcases List.mem_append.mp hc with hc | hc
    · rw [← hcount c hc]
      rfl
    · rw [List.mem_singleton.mp hc]
      rfl

/-! ### The step over a run -/

/-- A step over a run of line feeds fails if what 32 bits keep of the length overflows the
    line number, and otherwise reports and adds just that. -/
theorem step_of_feedRun {source : String} {pos : Position} {count : Nat}
    (h : FeedRun source pos.offset count) :
    step source pos =
      if pos.line.toNat + count % UInt32.size < UInt32.size then
        .ok (some ⟨.lineBreaks (UInt32.ofNat count),
          ⟨pos.line + UInt32.ofNat count, pos.offset + count⟩⟩)
      else .error .lineOverflow := by
  obtain ⟨before, behind, hsource, hoffset, hbehind⟩ := h.exists_around
  have hpiece : Piece.step ⟨.lineBreaks, List.replicate count '\n', behind⟩ pos = _ :=
    Piece.step_eq (labels_replicate_lineFeed h.count_pos) pos
  have hafter : pos.after (List.replicate count '\n')
      = ⟨pos.line + UInt32.ofNat count, pos.offset + count⟩ := by
    unfold Position.after
    rw [List.count_replicate_self, byteLength_replicate_lineFeed]
  simp only [List.count_replicate_self, UInt32.toNat_ofNat', hafter] at hpiece
  rw [step_eq hsource hoffset.symm, first?_replicate_lineFeed h.count_pos hbehind]
  simp only [hpiece]
  split
  · simp [Category.unit, Except.map]
  · rfl

/-! ### What is counted -/

/-- A step from a cursor counts some line feeds: it reports their number, and it adds it to
    the line number. -/
def Step.Counts (found : Step) (pos : Position) (count : Nat) : Prop :=
  ∃ n, found.scanned = .lineBreaks n ∧ n.toNat = count ∧
    found.next.line.toNat = pos.line.toNat + count

theorem Step.Counts.unique {found : Step} {pos : Position} {first second : Nat}
    (h₁ : found.Counts pos first) (h₂ : found.Counts pos second) : first = second := by
  obtain ⟨-, -, -, hfirst⟩ := h₁
  obtain ⟨-, -, -, hsecond⟩ := h₂
  omega

section run

variable {source : String} {pos : Position} {count : Nat}

theorem step_of_feedRun_of_full (h : FeedRun source pos.offset count)
    (hfull : UInt32.size ≤ pos.line.toNat + count % UInt32.size) :
    step source pos = .error .lineOverflow := by
  rw [step_of_feedRun h, if_neg (Nat.not_lt_of_le hfull)]

/-- Where the line number has room, what 32 bits keep of the length is counted. -/
theorem exists_step_of_feedRun (h : FeedRun source pos.offset count)
    (hroom : pos.line.toNat + count % UInt32.size < UInt32.size) :
    ∃ found, step source pos = .ok (some found) ∧ found.Counts pos (count % UInt32.size) ∧
      found.next.offset = pos.offset + count := by
  refine ⟨_, by rw [step_of_feedRun h, if_pos hroom], ⟨_, rfl, ?_, ?_⟩, rfl⟩
  · exact UInt32.toNat_ofNat'
  · show (pos.line + UInt32.ofNat count).toNat = _
    rw [UInt32.toNat_add, UInt32.toNat_ofNat']
    exact Nat.mod_eq_of_lt hroom

end run

/-- **Runs of line feeds**: at a run of line feeds a step fails if the line number, with what
    32 bits keep of the length of the run, leaves 32 bits. Otherwise it passes the whole run
    and counts just that. So whatever a step returns there counts the run exactly if its length
    fits in 32 bits, or the step fails. -/
theorem runs_counted_in_32_bits (source : String) (pos : Position) (count : Nat)
    (hrun : FeedRun source pos.offset count) :
    (4294967296 ≤ pos.line.toNat + count % 4294967296 →
      step source pos = .error .lineOverflow) ∧
    (pos.line.toNat + count % 4294967296 < 4294967296 →
      ∃ found, step source pos = .ok (some found) ∧
        found.Counts pos (count % 4294967296) ∧ found.next.offset = pos.offset + count) ∧
    ((∀ found, step source pos = .ok (some found) → found.Counts pos count) ↔
      count < 4294967296 ∨ 4294967296 ≤ pos.line.toNat + count % 4294967296) := by
  have hsize : UInt32.size = 4294967296 := rfl
  rw [← hsize]
  refine ⟨step_of_feedRun_of_full hrun, exists_step_of_feedRun hrun, ?_⟩
  by_cases hfull : UInt32.size ≤ pos.line.toNat + count % UInt32.size
  · constructor
    · intro _
      exact Or.inr hfull
    · intro _ found hstep
      rw [step_of_feedRun_of_full hrun hfull] at hstep
      exact nomatch hstep
  · obtain ⟨found, hstep, hcounts, -⟩ := exists_step_of_feedRun hrun (Nat.lt_of_not_le hfull)
    constructor
    · intro hall
      -- The whole length is counted only if nothing of it is lost.
      have hkept := (hall found hstep).unique hcounts
      have hless : count % UInt32.size < UInt32.size := Nat.mod_lt _ (by decide)
      omega
    · intro hsmall other hother
      obtain rfl : found = other := Option.some.inj (Except.ok.inj (hstep.symm.trans hother))
      rwa [Nat.mod_eq_of_lt (hsmall.resolve_right hfull)] at hcounts

/-- The two line feeds between `1` and `2` are counted from line 7 on. -/
theorem runs_counted_in_32_bits_two :
    FeedRun (String.ofList ['1', '\n', '\n', '2']) 1 2 ∧
    ∃ found, step (String.ofList ['1', '\n', '\n', '2']) ⟨7, 1⟩ = .ok (some found) ∧
      found.Counts ⟨7, 1⟩ 2 ∧ found.next.offset = 3 := by
  have hrun : FeedRun (String.ofList ['1', '\n', '\n', '2']) 1 2 := by
    refine ⟨by decide, ['1'], ['2'], ?_, rfl, by decide⟩
    rw [String.toList_ofList]
    rfl
  obtain ⟨-, hcounted, -⟩ := runs_counted_in_32_bits _ ⟨7, 1⟩ 2 hrun
  exact ⟨hrun, hcounted (by decide)⟩

/-- A source of line feeds only is a single run. -/
theorem feedRun_replicate {count : Nat} (h : 0 < count) :
    FeedRun (String.ofList (List.replicate count '\n')) 0 count := by
  refine ⟨h, [], [], ?_, rfl, by simp⟩
  rw [String.toList_ofList, List.append_nil, List.nil_append]

/-- A run of `2 ^ 32` line feeds is passed without being counted at all. -/
theorem run_of_two_pow_32_not_counted :
    ¬ ∀ (source : String) (pos : Position) (count : Nat), FeedRun source pos.offset count →
      ∀ found, step source pos = .ok (some found) → found.Counts pos count := by
  intro hcounts
  have hrun : FeedRun _ Position.start.offset 4294967296 := feedRun_replicate (by decide)
  have hroom : Position.start.line.toNat + 4294967296 % UInt32.size < UInt32.size := by decide
  obtain ⟨found, hstep, hnone, -⟩ := exists_step_of_feedRun hrun hroom
  have hall := (hcounts _ .start 4294967296 hrun found hstep).unique hnone
  exact absurd hall (by decide)

end ExprScan
