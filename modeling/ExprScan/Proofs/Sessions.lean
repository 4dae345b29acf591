import ExprScan.Proofs.Calls
import ExprScan.Session
import Mathlib.Data.List.Forall2

/-! # Sessions

  Whatever is asked of a session, its lexer and all lexers that it keeps are
  ones that a lexer of the source comes to by calls of `next` alone. What such
  a lexer is like depends on the number of calls only (`Lexer.Stage`), so what is
  left to do is to count the calls. Of the operations only `next` and `rest` make
  any: one, and as many as there are items left and one more. A copy counts the
  calls of the lexer that it was taken of (`Asked`). Each operation keeps to the
  counts (`Counted.perform`), and so does every run (`Steps.counted`).

  Saving and restoring work as brackets do: what is saved in between is gone
  again at the end (`Steps.saved_eq`).
-/

namespace ExprScan

/-! ### Counting calls -/

/-- How often the lexer of a session and those that it keeps were asked for an item.
    A copy counts what was asked of the lexer that it was taken of. -/
structure Asked where
  lexer : Nat
  saved : List Nat

/-- Nothing was asked for yet. -/
def Asked.start : Asked := ⟨0, []⟩

/-- The counts after an operation, for a source with a number of items. -/
def Asked.after (total : Nat) (asked : Asked) : Operation → Asked
  | .next => ⟨asked.lexer + 1, asked.saved⟩
  | .rest => ⟨asked.lexer + (total - asked.lexer + 1), asked.saved⟩
  | .save => ⟨asked.lexer, asked.lexer :: asked.saved⟩
  | .restore =>
    match asked.saved with
    | [] => asked
    | lexer :: saved => ⟨lexer, saved⟩
  -- Leaving comments out asks a copy only, which is gone afterwards.
  | .withoutComments | .debug => asked

/-- The lexers of a session are those that as many calls lead to as are counted. -/
structure Session.Counted (source : String) (asked : Asked) (session : Session) : Prop where
  lexer_eq : (Lexer.ofSource source).advanced asked.lexer = .ok session.lexer
  saved_eq : List.Forall₂ (fun calls lexer => (Lexer.ofSource source).advanced calls = .ok lexer)
    asked.saved session.saved

/-! ### Operations -/

namespace Session

theorem counted_ofSource (source : String) : Counted source .start (ofSource source) :=
  ⟨rfl, .nil⟩

variable {source : String} {asked : Asked} {session : Session}

/-- All lexers of a session are ones that calls alone come to. -/
theorem Counted.exists_advanced (h : Counted source asked session) :
    ∀ lexer ∈ session.lexer :: session.saved,
      ∃ calls, (Lexer.ofSource source).advanced calls = .ok lexer := by
  rw [List.forall_mem_cons]
  refine ⟨⟨asked.lexer, h.lexer_eq⟩, ?_⟩
  have hsaved := h.saved_eq
  generalize asked.saved = kept, session.saved = saved at hsaved
  induction hsaved with
  | nil => exact fun lexer hlexer => absurd hlexer List.not_mem_nil
  | cons hlast hmore ih => exact List.forall_mem_cons.mpr ⟨⟨_, hlast⟩, ih⟩

/-- Leaving comments out leaves the session as it is. -/
theorem perform_withoutComments {session : Session} {items : List Item} {events : List Event}
    (h : session.lexer.withoutComments = .ok (items, events)) :
    session.perform .withoutComments = .ok ⟨.items items, session, events⟩ := by
  unfold perform
  rw [h]
  rfl

theorem exists_drain_of_withoutComments {session : Session} {outcome : Outcome}
    (h : session.perform .withoutComments = .ok outcome) :
    ∃ drained, session.lexer.drain = .ok drained ∧
      outcome = ⟨.items (drained.items.filter fun item => !item.isComment), session,
        drained.events⟩ := by
  obtain ⟨found, hfound, houtcome⟩ := exists_of_bind_eq_ok h
  obtain ⟨drained, hdrain, hdrained⟩ := exists_of_bind_eq_ok hfound
  obtain rfl := Except.ok.inj hdrained
  exact ⟨drained, hdrain, (Except.ok.inj houtcome).symm⟩

/-- Each operation succeeds and keeps to the counts. -/
theorem Counted.perform (h : Counted source asked session)
    (hroom : Position.start.HasRoom source.toList) (operation : Operation) :
    ∃ outcome, session.perform operation = .ok outcome ∧
      outcome.session.Counted source
        (asked.after (itemsFrom .start source.toList).length operation) := by
  have hstage := Lexer.stage_of_advanced hroom h.lexer_eq
  -- Only `next` and `rest` lead the lexer on. The others copy a lexer or bring back a copy.
  cases operation with
  | next =>
    obtain ⟨reading, hnext, -, -⟩ := hstage.next hroom
    refine ⟨⟨.item reading.item, { session with lexer := reading.lexer }, reading.events⟩, ?_, ?_,
      h.saved_eq⟩
    · unfold Session.perform
      rw [hnext]
      rfl
    · show (Lexer.ofSource source).advanced (asked.lexer + 1) = .ok reading.lexer
      rw [Lexer.advanced_add 1 h.lexer_eq, Lexer.advanced_succ 0 hnext]
      rfl
  | rest =>
    obtain ⟨drained, hdrain, -⟩ := hstage.exists_drain hroom
    have hlast := hstage.advanced_of_drainOnto hroom hdrain
    refine ⟨⟨.items drained.items, { session with lexer := drained.lexer }, drained.events⟩, ?_,
      (Lexer.advanced_add _ h.lexer_eq).trans hlast, h.saved_eq⟩
    unfold Session.perform
    rw [hdrain]
    rfl
  | withoutComments =>
    obtain ⟨events, hwithout⟩ := (hstage.isAfter hroom).exists_withoutComments
    exact ⟨_, perform_withoutComments hwithout, h⟩
  | save => exact ⟨_, rfl, h.lexer_eq, .cons h.lexer_eq h.saved_eq⟩
  | restore =>
    obtain ⟨lexer, saved⟩ := session
    obtain ⟨calls, kept⟩ := asked
    obtain ⟨hlexer, hsaved⟩ := h
    cases hsaved with
    | nil => exact ⟨_, rfl, hlexer, .nil⟩
    | cons hlast hsaved => exact ⟨_, rfl, hlast, hsaved⟩
  | debug => exact ⟨_, rfl, h⟩

theorem Counted.of_perform {operation : Operation} {outcome : Outcome}
    (h : Counted source asked session) (hroom : Position.start.HasRoom source.toList)
    (hperform : session.perform operation = .ok outcome) :
    outcome.session.Counted source
      (asked.after (itemsFrom .start source.toList).length operation) := by
  obtain ⟨other, hother, hcounted⟩ := h.perform hroom operation
  rw [hperform] at hother
  obtain rfl := Except.ok.inj hother
  exact hcounted

/-! ### Runs -/

/-- Operations carried out one after the other, with their outcomes and the
    session that they lead to. -/
inductive Steps : Session → List Operation → List Outcome → Session → Prop where
  | done (session : Session) : Steps session [] [] session
  | more {session last : Session} {operation : Operation} {outcome : Outcome}
      {operations : List Operation} {outcomes : List Outcome}
      (hperform : session.perform operation = .ok outcome)
      (hmore : Steps outcome.session operations outcomes last) :
      Steps session (operation :: operations) (outcome :: outcomes) last

theorem Steps.run_eq {session last : Session} {operations : List Operation}
    {outcomes : List Outcome} (h : Steps session operations outcomes last) :
    session.run operations = .ok outcomes := by
  induction h with
  | done session => rfl
  | more hperform hmore ih =>
    unfold run
    rw [hperform]
    show (do return _ :: (← Session.run _ _) : Except Fault (List Outcome)) = _
    rw [ih]
    rfl

theorem Steps.length_eq {session last : Session} {operations : List Operation}
    {outcomes : List Outcome} (h : Steps session operations outcomes last) :
    outcomes.length = operations.length := by
  induction h with
  | done session => rfl
  | more hperform hmore ih => rw [List.length_cons, List.length_cons, ih]

/-- A run over two lists of operations is one over the first and then one over
    the second. -/
theorem Steps.split {session last : Session} {first second : List Operation}
    {outcomes : List Outcome} (h : Steps session (first ++ second) outcomes last) :
    ∃ early middle late, outcomes = early ++ late ∧ Steps session first early middle ∧
      Steps middle second late last := by
  induction first generalizing session outcomes with
  | nil => exact ⟨[], session, outcomes, rfl, .done session, h⟩
  | cons operation first ih =>
    cases h with
    | @more _ _ _ outcome _ outcomes hperform hmore =>
      obtain ⟨early, middle, late, rfl, hfirst, hsecond⟩ := ih hmore
      exact ⟨outcome :: early, middle, late, rfl, .more hperform hfirst, hsecond⟩

/-- An operation of a run is carried out on the session that those before it lead to. -/
theorem Steps.exists_perform {session last : Session} {before behind : List Operation}
    {operation : Operation} {outcomes : List Outcome}
    (h : Steps session (before ++ operation :: behind) outcomes last) :
    ∃ early middle outcome late, outcomes = early ++ outcome :: late ∧
      early.length = before.length ∧ Steps session before early middle ∧
      middle.perform operation = .ok outcome := by
  obtain ⟨early, middle, rest, rfl, hbefore, hrest⟩ := h.split
  cases hrest with
  | @more _ _ _ outcome _ late hperform hbehind =>
    exact ⟨early, middle, outcome, late, rfl, hbefore.length_eq, hbefore, hperform⟩

section counted

variable (hcounted : Counted source asked session) (hroom : Position.start.HasRoom source.toList)

include hcounted hroom

/-- Every run succeeds. -/
theorem Counted.exists_steps (operations : List Operation) :
    ∃ outcomes last, Steps session operations outcomes last := by
  induction operations generalizing session asked with
  | nil => exact ⟨[], session, .done session⟩
  | cons operation operations ih =>
    obtain ⟨outcome, hperform, hafter⟩ := hcounted.perform hroom operation
    obtain ⟨outcomes, last, hsteps⟩ := ih hafter
    exact ⟨outcome :: outcomes, last, .more hperform hsteps⟩

/-- Every run keeps to the counts. -/
theorem Steps.counted {last : Session} {operations : List Operation} {outcomes : List Outcome}
    (h : Steps session operations outcomes last) :
    Counted source (operations.foldl (Asked.after (itemsFrom .start source.toList).length) asked)
      last := by
  induction h generalizing asked with
  | done session => exact hcounted
  | more hperform hmore ih => exact ih (hcounted.of_perform hroom hperform)

/-- So do the sessions on the way. -/
theorem Steps.exists_counted {last : Session} {operations : List Operation}
    {outcomes : List Outcome} (h : Steps session operations outcomes last) :
    ∀ reached ∈ session :: outcomes.map Outcome.session,
      ∃ asked, Counted source asked reached := by
  induction h generalizing asked with
  | done session => exact List.forall_mem_cons.mpr ⟨⟨asked, hcounted⟩, by simp⟩
  | more hperform hmore ih =>
    exact List.forall_mem_cons.mpr ⟨⟨asked, hcounted⟩, ih (hcounted.of_perform hroom hperform)⟩

end counted

/-! ### Saving and restoring -/

/-- Operations in which each saving has a restoring behind it, as brackets do. -/
inductive Balanced : List Operation → Prop where
  | nil : Balanced []
  | single {operation : Operation} {operations : List Operation} (hsave : operation ≠ .save)
      (hrestore : operation ≠ .restore) (hmore : Balanced operations) :
      Balanced (operation :: operations)
  | nested {inner operations : List Operation} (hinner : Balanced inner)
      (hmore : Balanced operations) : Balanced (.save :: (inner ++ .restore :: operations))

/-- Only saving and restoring change what is saved. -/
theorem saved_eq_of_perform {session : Session} {operation : Operation} {outcome : Outcome}
    (hsave : operation ≠ .save) (hrestore : operation ≠ .restore)
    (h : session.perform operation = .ok outcome) : outcome.session.saved = session.saved := by
  cases operation with
  | next =>
    obtain ⟨reading, -, hreading⟩ := exists_of_bind_eq_ok h
    obtain rfl := Except.ok.inj hreading
    rfl
  | rest =>
    obtain ⟨drained, -, hdrained⟩ := exists_of_bind_eq_ok h
    obtain rfl := Except.ok.inj hdrained
    rfl
  | withoutComments =>
    obtain ⟨found, -, hfound⟩ := exists_of_bind_eq_ok h
    obtain rfl := Except.ok.inj hfound
    rfl
  | save => exact absurd rfl hsave
  | restore => exact absurd rfl hrestore
  | debug =>
    obtain rfl := Except.ok.inj h
    rfl

/-- Restoring goes back to what was saved last. -/
theorem session_eq_of_restore {session : Session} {lexer : Lexer} {saved : List Lexer}
    {outcome : Outcome} (hsaved : session.saved = lexer :: saved)
    (h : session.perform .restore = .ok outcome) : outcome.session = ⟨lexer, saved⟩ := by
  unfold perform at h
  rw [hsaved] at h
  obtain rfl := Except.ok.inj h
  rfl

/-- Balanced operations leave what is saved as they found it. -/
theorem Steps.saved_eq {session last : Session} {operations : List Operation}
    {outcomes : List Outcome} (hbalanced : Balanced operations)
    (h : Steps session operations outcomes last) : last.saved = session.saved := by
  induction hbalanced generalizing session last outcomes with
  | nil =>
    cases h
    rfl
  | single hsave hrestore hmore ih =>
    cases h with
    | more hperform hsteps => rw [ih hsteps, saved_eq_of_perform hsave hrestore hperform]
  | nested hinner hmore ihinner ihmore =>
    cases h with
    | more hperform hsteps =>
      obtain rfl := Except.ok.inj hperform
      obtain ⟨early, middle, late, rfl, hfirst, hsecond⟩ := hsteps.split
      have hsaved := ihinner hfirst
      cases hsecond with
      | more hrestore hsteps =>
        rw [ihmore hsteps, session_eq_of_restore hsaved hrestore]

/-- Restoring goes back to where the lexer was when the matching saving was done. -/
theorem Steps.restores {session last : Session} {before between behind : List Operation}
    {outcomes : List Outcome} (hbalanced : Balanced between)
    (h : Steps session (before ++ .save :: (between ++ .restore :: behind)) outcomes last) :
    ∃ early kept middle restored late,
      outcomes = early ++ kept :: (middle ++ restored :: late) ∧
      early.length = before.length ∧ middle.length = between.length ∧
      restored.session.lexer = kept.session.lexer := by
  obtain ⟨early, reached, rest, rfl, hbefore, hrest⟩ := h.split
  cases hrest with
  | @more _ _ _ kept _ rest hsave hsteps =>
    obtain rfl := Except.ok.inj hsave
    obtain ⟨middle, there, late, rfl, hbetween, hbehind⟩ := hsteps.split
    have hsaved := hbetween.saved_eq hbalanced
    cases hbehind with
    | @more _ _ _ restored _ late hrestore hlate =>
      refine ⟨early, _, middle, restored, late, rfl, hbefore.length_eq, hbetween.length_eq, ?_⟩
      rw [session_eq_of_restore hsaved hrestore]

end Session

/-- **Sessions**: whatever operations are carried out on a session of a source,
    its lexer and all that it keeps are at all times ones that calls of `next`
    alone come to. What such a lexer is like depends on the number of calls
    only. Restoring goes back to the lexer of the matching saving, and leaving
    comments out gives the items that are left but the comments and leaves the
    session where it is. How many calls there are is told by the operations:
    each of them adds its own to those that were made before it. -/
theorem sessions_keep_to_calls (source : String)
    (hlines : source.toList.count '\n' ≤ 4294967294) :
    ∃ drained, (Lexer.ofSource source).drain = .ok drained ∧
      (∀ calls, ∃ lexer, (Lexer.ofSource source).advanced calls = .ok lexer ∧
        lexer.IsAfter source drained.items calls) ∧
      ∀ operations, ∃ outcomes, (Session.ofSource source).run operations = .ok outcomes ∧
        (∀ session ∈ Session.ofSource source :: outcomes.map Outcome.session,
          (∀ lexer ∈ session.lexer :: session.saved,
            ∃ calls, (Lexer.ofSource source).advanced calls = .ok lexer) ∧
          ∀ calls, (Lexer.ofSource source).advanced calls = .ok session.lexer →
            ∃ events, session.perform .withoutComments
              = .ok ⟨.items ((drained.items.drop calls).filter fun item => !item.isComment),
                  session, events⟩) ∧
        (∀ before between behind,
          operations = before ++ .save :: (between ++ .restore :: behind) →
          Session.Balanced between →
          ∃ early kept middle restored late,
            outcomes = early ++ kept :: (middle ++ restored :: late) ∧
            early.length = before.length ∧ middle.length = between.length ∧
            restored.session.lexer = kept.session.lexer) ∧
        ∀ before operation behind, operations = before ++ operation :: behind →
          ∃ early outcome late, outcomes = early ++ outcome :: late ∧
            early.length = before.length ∧
            outcome.session.Counted source
              ((before.foldl (Asked.after drained.items.length) .start).after
                drained.items.length operation) := by
  have hroom := Position.hasRoom_start hlines
  obtain ⟨drained, hdrain, hitems⟩ := Lexer.exists_drain_ofSource hlines
  refine ⟨drained, hdrain, ?_, ?_⟩
  · intro calls
    obtain ⟨lexer, hlexer, hstage⟩ := Lexer.exists_advanced_ofSource hroom calls
    rw [hitems]
    exact ⟨lexer, hlexer, hstage.isAfter hroom⟩
  · intro operations
    have hstart := Session.counted_ofSource source
    obtain ⟨outcomes, last, hsteps⟩ := hstart.exists_steps hroom operations
    refine ⟨outcomes, hsteps.run_eq, ?_, ?_, ?_⟩
    · intro session hsession
      obtain ⟨asked, hcounted⟩ := hsteps.exists_counted hstart hroom session hsession
      refine ⟨hcounted.exists_advanced, ?_⟩
      intro calls hcalls
      have hafter := (Lexer.stage_of_advanced hroom hcalls).isAfter hroom
      obtain ⟨events, hwithout⟩ := hafter.exists_withoutComments
      rw [hitems]
      exact ⟨events, Session.perform_withoutComments hwithout⟩
    · rintro before between behind rfl hbalanced
      exact hsteps.restores hbalanced
    · rintro before operation behind rfl
      obtain ⟨early, middle, outcome, late, houtcomes, hlength, hbefore, hperform⟩ :=
        hsteps.exists_perform
      rw [hitems]
      exact ⟨early, outcome, late, houtcomes, hlength,
        (hbefore.counted hstart hroom).of_perform hroom hperform⟩

/-- Of `1@`, what is read between saving and restoring is there to be read again, and the
    reading in between is one call. -/
theorem sessions_keep_to_calls_restored :
    (String.ofList ['1', '@']).toList.count '\n' ≤ 4294967294 ∧
    Session.Balanced [.next] ∧
    ∃ outcomes early kept middle restored late,
      (Session.ofSource (String.ofList ['1', '@'])).run [.save, .next, .restore] = .ok outcomes ∧
      outcomes = early ++ kept :: (middle ++ restored :: late) ∧
      restored.session.lexer = kept.session.lexer ∧
      ∃ outcome ∈ outcomes, outcome.session.Counted (String.ofList ['1', '@']) ⟨1, [0]⟩ := by
  have hlines : (String.ofList ['1', '@']).toList.count '\n' ≤ 4294967294 := by
    rw [String.toList_ofList]
    decide
  have hbalanced : Session.Balanced [.next] := .single (by decide) (by decide) .nil
  obtain ⟨drained, -, -, hsessions⟩ := sessions_keep_to_calls (String.ofList ['1', '@']) hlines
  obtain ⟨outcomes, hrun, -, hrestores, hcounts⟩ := hsessions [.save, .next, .restore]
  obtain ⟨early, kept, middle, restored, late, houtcomes, -, -, hlexer⟩ :=
    hrestores [] [.next] [] rfl hbalanced
  obtain ⟨first, outcome, others, hsplit, -, hcounted⟩ := hcounts [.save] .next [.restore] rfl
  have houtcome : outcome ∈ outcomes := by
    rw [hsplit]
    exact List.mem_append_right _ List.mem_cons_self
  exact ⟨hlines, hbalanced, outcomes, early, kept, middle, restored, late, hrun, houtcomes, hlexer,
    outcome, houtcome, hcounted⟩

end ExprScan
