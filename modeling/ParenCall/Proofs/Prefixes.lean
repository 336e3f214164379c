import ParenCall.Proofs.Grammar
import ParenCall.Proofs.Report

/-! # Where parsing fails

A token list is viable when some continuation of it parses. Every state that
reading reaches can be completed: a due callee is supplied and the open calls
are closed. A refusal, on the other hand, stands whatever follows. Hence the
viable lists are those that reading gets through, and parsing fails either at
the end of a viable list or at the first token that no viable list can hold
there. -/

namespace ParenCall.Source

/-- Some continuation of the token list parses. -/
def Viable (rule : CalleeRule) (ts : List Token) : Prop :=
  ∃ more p, parse rule (ts ++ more) = .ok p

/-- Whether the token after these stands in callee position, that is, right
after an opening parenthesis that is not itself a callee. -/
def calleeNext (ts : List Token) : Bool := ts.foldl (fun due t => !due && t.isOpen) false

namespace Reading

/-! ## Completing a reading -/

def closer : Token := { kind := .paren, text := ")" }

def completion (r : Reading) : List Token :=
  (if r.calleeDue then [{ kind := .name, text := "f" }, closer] else [])
    ++ List.replicate r.calls.length closer

theorem length_calls_add (r : Reading) (e : Expr) :
    (r.add e).calls.length = r.calls.length := by
  unfold add Draft.add
  split
  · rfl
  · rename_i hs
    simp [hs]

theorem readAll_closers {rule : CalleeRule} {r : Reading} (due : r.calleeDue = false) :
    ∃ s, r.readAll rule (List.replicate r.calls.length closer) = .ok s ∧
      s.isComplete = true := by
  induction hn : r.calls.length generalizing r with
  | zero => exact ⟨r, rfl, isComplete_iff.mpr ⟨due, List.length_eq_zero_iff.mp hn⟩⟩
  | succ n ih =>
    obtain ⟨c, calls, inside⟩ := List.exists_cons_of_length_eq_add_one hn
    have hstep : Takes rule r closer ({ r with calls := calls }.add c.close) :=
      .closing due rfl inside
    rw [List.replicate_succ, readAll_cons_of_takes hstep]
    refine ih (by rw [add_calleeDue]; exact due) ?_
    rw [length_calls_add]
    simpa [inside] using hn

theorem readAll_completion (rule : CalleeRule) (r : Reading) :
    ∃ s, r.readAll rule r.completion = .ok s ∧ s.isComplete = true := by
  cases due : r.calleeDue with
  | false =>
    have h : r.completion = List.replicate r.calls.length closer := by simp [completion, due]
    rw [h]
    exact readAll_closers due
  | true =>
    let opened : Reading := { r with calls := { name := "f" } :: r.calls, calleeDue := false }
    have h : r.completion =
        { kind := .name, text := "f" } :: List.replicate opened.calls.length closer := by
      simp [completion, due, opened, List.replicate_succ]
    have hstep : Takes rule r { kind := .name, text := "f" } opened := .callee due rfl
    rw [h, readAll_cons_of_takes hstep]
    exact readAll_closers rfl

/-! ## Callee position -/

theorem calleeDue_of_takes {rule : CalleeRule} {r s : Reading} {t : Token}
    (h : Takes rule r t s) : s.calleeDue = (!r.calleeDue && t.isOpen) := by
  cases h with
  | callee due _ => simp [due]
  | opening due opens => simp [due, opens]
  | closing due closes _ => simp [due, Token.isOpen_eq_false_of_isClose closes]
  | literal due spells => simp [due, (not_paren_of_literal? spells).1]

theorem calleeDue_of_readAll {rule : CalleeRule} {r s : Reading} {ts : List Token}
    (h : r.readAll rule ts = .ok s) :
    s.calleeDue = ts.foldl (fun due t => !due && t.isOpen) r.calleeDue := by
  induction ts generalizing r with
  | nil =>
    cases Except.ok.inj h
    rfl
  | cons t ts ih =>
    obtain ⟨r', ht⟩ | ⟨f, hf⟩ := takes_or_refuses rule r t
    · rw [readAll_cons_of_takes ht] at h
      rw [ih h, calleeDue_of_takes ht, List.foldl_cons]
    · rw [readAll_cons_of_refuses hf] at h
      contradiction

end Reading

/-! ## Viable prefixes -/

theorem viable_iff_readAll {rule : CalleeRule} {ts : List Token} :
    Viable rule ts ↔ ∃ r, Reading.readAll rule {} ts = .ok r := by
  constructor
  · rintro ⟨more, p, h⟩
    cases hr : Reading.readAll rule {} ts with
    | ok r => exact ⟨r, rfl⟩
    | error f =>
      rw [parse_of_readAll_error (Reading.readAll_append_of_error hr more)] at h
      contradiction
  · rintro ⟨r, hr⟩
    obtain ⟨s, hs, hc⟩ := r.readAll_completion rule
    have hread := (Reading.readAll_append_of_ok hr r.completion).trans hs
    exact ⟨r.completion, _, parse_eq_ok_iff.mpr ⟨s, hread, hc, rfl⟩⟩

/-- Reading fails for good at the first token it refuses. -/
theorem readAll_append_refused {rule : CalleeRule} {pre : List Token} {t : Token} {r : Reading}
    {f : Fault} (hr : Reading.readAll rule {} pre = .ok r) (hf : r.Refuses rule t f)
    (post : List Token) : Reading.readAll rule {} (pre ++ t :: post) = .error f := by
  rw [Reading.readAll_append_of_ok hr, Reading.readAll_cons_of_refuses hf]

theorem not_viable_of_refused {rule : CalleeRule} {pre : List Token} {t : Token} {r : Reading}
    {f : Fault} (hr : Reading.readAll rule {} pre = .ok r) (hf : r.Refuses rule t f)
    (post : List Token) : ¬ Viable rule (pre ++ t :: post) := by
  intro hv
  obtain ⟨s, hs⟩ := viable_iff_readAll.mp hv
  rw [readAll_append_refused hr hf] at hs
  contradiction

/-- Reading that stopped inside a call has taken some token. -/
theorem getLast?_of_incomplete {rule : CalleeRule} {ts : List Token} {r : Reading}
    (hr : Reading.readAll rule {} ts = .ok r) (hc : r.isComplete = false) :
    ∃ last, ts.getLast? = some last := by
  cases h : ts.getLast? with
  | some last => exact ⟨last, rfl⟩
  | none =>
    rw [List.getLast?_eq_none_iff.mp h] at hr
    cases Except.ok.inj hr
    contradiction

/-- Parsing fails where reading does, or behind the last token of an open call. -/
theorem parse_eq_error {rule : CalleeRule} {ts : List Token} {f : Fault}
    (h : parse rule ts = .error f) :
    Reading.readAll rule {} ts = .error f ∨
      ∃ r last, Reading.readAll rule {} ts = .ok r ∧ r.isComplete = false ∧
        ts.getLast? = some last ∧ f = .endOfInput (some last.endOffset) := by
  cases hread : Reading.readAll rule {} ts with
  | error g =>
    rw [parse_of_readAll_error hread] at h
    exact .inl (congrArg Except.error (Except.error.inj h))
  | ok r =>
    rw [parse_of_readAll_ok hread] at h
    split at h
    · contradiction
    · rename_i hc
      have hc' : r.isComplete = false := Bool.eq_false_iff.mpr hc
      obtain ⟨last, hlast⟩ := getLast?_of_incomplete hread hc'
      rw [Token.endOf, hlast] at h
      exact .inr ⟨r, last, rfl, hc', hlast, (Except.error.inj h).symm⟩

theorem code_of_refuses {rule : CalleeRule} {pre : List Token} {t : Token} {r : Reading}
    {f : Fault} (hr : Reading.readAll rule {} pre = .ok r) (hf : r.Refuses rule t f) :
    f.code = (if calleeNext pre then .invalidCallee else .unexpectedToken) ∧
      f.details = t.details ∧ f.offset = some t.offset := by
  have hdue : r.calleeDue = calleeNext pre := Reading.calleeDue_of_readAll hr
  cases hf with
  | callee due _ => exact ⟨by rw [← hdue, due]; rfl, rfl, rfl⟩
  | token due _ _ _ => exact ⟨by rw [← hdue, due]; rfl, rfl, rfl⟩

/-- Parsing fails at the end of the input exactly when the token list is viable,
and then reports where its last token ends. Otherwise it reports the first
token with which the list is no longer viable, and no continuation from there
changes the report. -/
theorem parse_error_at_first_wrong_token (rule : CalleeRule) (ts : List Token) (f : Fault)
    (h : parse rule ts = .error f) :
    ∃ d, f.failure = .diagnostic d ∧ d.stage = .parsing ∧
      (d.code = .endOfInput ↔ Viable rule ts) ∧
      (Viable rule ts → ∃ last, ts.getLast? = some last ∧
        d.offset =
          some (last.offset + last.text.length + if last.kind = .string then 2 else 0)) ∧
      (¬ Viable rule ts → ∃ pre t post, ts = pre ++ [t] ++ post ∧
        Viable rule pre ∧ ¬ Viable rule (pre ++ [t]) ∧
        d.offset = some t.offset ∧
        d.details = [("kind", .text t.kind.label), ("text", .text t.text)] ∧
        d.code = (if calleeNext pre then .invalidCallee else .unexpectedToken) ∧
        ∀ post', parse rule (pre ++ [t] ++ post') = .error f) := by
  obtain ⟨d, hd, _, hstage, hcode, hdetails, hoffset⟩ := f.failure_raised
  refine ⟨d, hd, hstage, ?_⟩
  cases hread : Reading.readAll rule {} ts with
  | ok r =>
    have hv : Viable rule ts := viable_iff_readAll.mpr ⟨r, hread⟩
    rw [parse_of_readAll_ok hread] at h
    split at h
    · contradiction
    · rename_i hc
      obtain ⟨last, hlast⟩ := getLast?_of_incomplete hread (Bool.eq_false_iff.mpr hc)
      cases Except.error.inj h
      refine ⟨iff_of_true hcode hv, fun _ => ⟨last, hlast, ?_⟩, fun hn => absurd hv hn⟩
      rw [hoffset, Fault.offset, Token.endOf, hlast]
      rfl
  | error g =>
    rw [parse_of_readAll_error hread] at h
    cases Except.error.inj h
    obtain ⟨pre, t, post, r, rfl, hpre, hf⟩ := Reading.readAll_eq_error hread
    have hn := not_viable_of_refused hpre hf
    obtain ⟨hc, hds, ho⟩ := code_of_refuses hpre hf
    have hcode' : d.code ≠ .endOfInput := by
      rw [hcode, hc]
      split <;> simp
    refine ⟨iff_of_false hcode' (hn post), fun hv => absurd hv (hn post), fun _ => ?_⟩
    refine ⟨pre, t, post, by simp, viable_iff_readAll.mpr ⟨r, hpre⟩, hn [],
      hoffset.trans ho, hdetails.trans hds, hcode.trans hc, fun post' => ?_⟩
    have hrefused := parse_of_readAll_error (readAll_append_refused hpre hf post')
    simpa using hrefused

/-- The call of an opening parenthesis is closed by the third token, so the
fourth closes nothing. -/
theorem parse_error_at_second_close :
    let o : Token := { kind := .paren, text := "(" }
    let c : Token := { kind := .paren, text := ")" }
    parse .permissive [o, o, c, c] = .error (.unexpectedToken c) ∧
      ¬ Viable .permissive [o, o, c, c] := by
  intro o c
  have h : parse .permissive [o, o, c, c] = .error (.unexpectedToken c) :=
    parse_of_outcome rfl
  obtain ⟨d, hd, -, hend, -⟩ := parse_error_at_first_wrong_token _ _ _ h
  refine ⟨h, fun hv => ?_⟩
  have hcode := hend.mpr hv
  cases hd
  contradiction

end ParenCall.Source
