import Mathlib.Data.List.Infix
import ParenCall.Proofs.Report

/-! # Hints that are added one after another

Adding hints builds the diagnostic anew from its own code and details, which
have filled the template before and fill it again. So a run of hints never
fails, changes nothing but the hints, and leaves of each kind of hint the last
one that was given. A hint that is given may be empty: it then replaces an
earlier one, although the report has no line for it. -/

namespace ParenCall

/-- The last of the things that were given, if any was. -/
def lastGiven {α : Type} (xs : List (Option α)) : Option α := (xs.filterMap id).getLast?

theorem lastGiven_singleton {α : Type} (x : Option α) : lastGiven [x] = x := by
  cases x <;> rfl

theorem lastGiven_cons_cons {α : Type} (x y : Option α) (xs : List (Option α)) :
    lastGiven (x :: y :: xs) = lastGiven (y.or x :: xs) := by
  unfold lastGiven
  cases y with
  | none => rfl
  | some b =>
    cases x with
    | none => rfl
    | some a => simp [List.getLast?_cons]

namespace Hints

/-- What a run of hints makes of those that a diagnostic has. -/
def after (own : Hints) (given : List Hints) : Hints :=
  ⟨lastGiven (own.context :: given.map context),
    lastGiven (own.suggestion :: given.map suggestion)⟩

theorem after_nil (own : Hints) : own.after [] = own := by
  simp only [after, List.map_nil, lastGiven_singleton]

theorem after_cons (own h : Hints) (given : List Hints) :
    own.after (h :: given) =
      after ⟨h.context.or own.context, h.suggestion.or own.suggestion⟩ given := by
  simp only [after, List.map_cons, lastGiven_cons_cons]

end Hints

namespace Diagnostic

/-! ## Runs -/

theorem eq_of_build {stage : Stage} {code : Code} {details : Details} {offset : Option Int}
    {hints : Hints} {d : Diagnostic} (h : build stage code details offset hints = .ok d) :
    ∃ message, code.template.fill details = .ok message ∧
      d = ⟨stage, code, details, offset, hints, message⟩ := by
  cases hfill : code.template.fill details with
  | error missing =>
    rw [build, hfill] at h
    cases h
  | ok message =>
    rw [build_of_fill hfill] at h
    exact ⟨message, rfl, (Except.ok.inj h).symm⟩

theorem withEach_of_fill (hs : List Hints) {d : Diagnostic}
    (h : d.code.template.fill d.details = .ok d.message) :
    d.withEach hs = .ok (hs.inits.map fun given => { d with hints := d.hints.after given }) := by
  induction hs generalizing d with
  | nil => rw [withEach, List.inits, List.map_singleton, Hints.after_nil]
  | cons hint hs ih =>
    -- The first hint turns from one that is given into one that the diagnostic has.
    let next : Diagnostic :=
      { d with hints := ⟨hint.context.or d.hints.context, hint.suggestion.or d.hints.suggestion⟩ }
    have hnext : d.withHints hint = .ok next := withHints_of_fill h hint
    have hrest : next.withEach hs =
        .ok (hs.inits.map fun given => { d with hints := d.hints.after (hint :: given) }) := by
      rw [@ih next h]
      simp only [Hints.after_cons]
      rfl
    rw [withEach, hnext, List.inits_cons, List.map_cons, Hints.after_nil, List.map_map]
    show (do let rest ← next.withEach hs; .ok (d :: rest)) = _
    rw [hrest]
    rfl

theorem getLast?_inits {α : Type} (xs : List α) : xs.inits.getLast? = some xs := by
  rw [List.getLast?_eq_getElem?, List.length_inits, Nat.add_sub_cancel,
    List.getElem?_eq_getElem (by rw [List.length_inits]; omega), List.getElem_inits,
    List.take_length]

/-! ## Reports -/

/-- The line that a report has in any case. -/
def headline (d : Diagnostic) : String :=
  d.stage.label ++ " error"
    ++ (match d.offset with
      | some offset => " at offset " ++ toString offset
      | none => "")
    ++ ": " ++ d.message

/-- A line that is there exactly if there is something to put on it. -/
structure PrintsLine (lead : String) (text : Option String) (line : String) : Prop where
  shown : ∀ t, text = some t → t ≠ "" → line = lead ++ t
  omitted : line = "" ↔ text = none ∨ text = some ""

theorem printsLine_optionalLine {lead : String} (h : lead ≠ "") (text : Option String) :
    PrintsLine lead text (optionalLine lead text) := by
  cases text with
  | none => exact ⟨by simp, by simp [optionalLine]⟩
  | some t =>
    by_cases ht : t = ""
    · exact ⟨by simp [ht], by simp [optionalLine, ht]⟩
    · exact ⟨by simp [optionalLine, ht], by simp [optionalLine, ht, h]⟩

theorem report_eq (d : Diagnostic) :
    d.report = d.headline ++ optionalLine "\n   > " d.hints.context ++
      optionalLine "\n   hint: " d.hints.suggestion := rfl

/-- Any run of hints on a diagnostic that was built succeeds, and its end has
the last context and the last suggestion that were given, each apart from the
other, those of the diagnostic itself included. Nothing else has changed, so it
is the diagnostic that is built with these hints at once. Its report has a line
for each hint that is not empty. -/
theorem withEach_keeps_last_given (stage : Stage) (code : Code) (details : Details)
    (offset : Option Int) (own : Hints) (e : Diagnostic)
    (h : build stage code details offset own = .ok e) (hs : List Hints) :
    ∃ states last, e.withEach hs = .ok states ∧ states.length = hs.length + 1 ∧
      states.getLast? = some last ∧
      last.stage = e.stage ∧ last.code = e.code ∧ last.offset = e.offset ∧
      last.details = e.details ∧ last.message = e.message ∧
      last.hints.context = lastGiven (e.hints.context :: hs.map Hints.context) ∧
      last.hints.suggestion = lastGiven (e.hints.suggestion :: hs.map Hints.suggestion) ∧
      build stage code details offset last.hints = .ok last ∧
      ∃ contextLine hintLine, last.report = last.headline ++ contextLine ++ hintLine ∧
        PrintsLine "\n   > " last.hints.context contextLine ∧
        PrintsLine "\n   hint: " last.hints.suggestion hintLine := by
  obtain ⟨message, hfill, rfl⟩ := eq_of_build h
  let last : Diagnostic := ⟨stage, code, details, offset, own.after hs, message⟩
  refine ⟨_, last, withEach_of_fill hs hfill, ?_, ?_, rfl, rfl, rfl, rfl, rfl, rfl, rfl,
    build_of_fill hfill, _, _, report_eq last, printsLine_optionalLine (by decide) _,
    printsLine_optionalLine (by decide) _⟩
  · rw [List.length_map, List.length_inits]
  · rw [List.getLast?_map, getLast?_inits]
    rfl

/-- An empty context takes the place of one that is not and of its line; the
suggestion is an earlier one, since none was given later. -/
theorem withEach_keeps_last_given_empty_context :
    let details : Details := [("kind", .text "number"), ("text", .text "1"), ("note", .nothing)]
    let given : List Hints := [⟨none, some "x"⟩, ⟨some "", none⟩, ⟨none, none⟩]
    ∃ e states last,
      build .parsing .invalidCallee details (some 4) ⟨some "(1)", none⟩ = .ok e ∧
      e.withEach given = .ok states ∧ states.getLast? = some last ∧
      last.hints = ⟨some "", some "x"⟩ ∧
      last.report = "Parse error at offset 4: Invalid callee: expected a name after '(' but " ++
        "found number token '1'\n   hint: x" := by
  intro details given
  obtain ⟨e, he⟩ : ∃ e,
      build .parsing .invalidCallee details (some 4) ⟨some "(1)", none⟩ = .ok e := ⟨_, rfl⟩
  obtain ⟨states, last, hstates, _, hlast, _, _, _, _, _, hcontext, hsuggestion, hdirect, _⟩ :=
    withEach_keeps_last_given _ _ _ _ _ _ he given
  have hhints : last.hints = ⟨some "", some "x"⟩ := by
    cases he
    exact congrArg₂ Hints.mk hcontext hsuggestion
  refine ⟨e, states, last, he, hstates, hlast, hhints, ?_⟩
  rw [hhints] at hdirect
  cases hdirect
  decide +kernel

end Diagnostic

end ParenCall
