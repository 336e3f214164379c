import ParenCall.Proofs.Compilation
import ParenCall.Proofs.Prefixes

/-! # What the callee rules agree on

The permissive rule takes every callee that the strict one takes, and the two
treat all other tokens alike. So a reading under the strict rule is one under
the permissive rule up to the first callee that only the strict rule refuses.
Such a callee is any token but a name and a closing parenthesis, which neither
rule takes. Where the strict rule meets none, both rules have the same outcome. -/

namespace ParenCall

/-! ## The closing parenthesis as a callee -/

def Token.closingDetails : Details := [("kind", .text "paren"), ("text", .text ")")]

theorem Token.isClose_iff_details {t : Token} :
    t.isClose = true ↔ t.details = closingDetails := by
  obtain ⟨kind, text, offset⟩ := t
  cases kind <;> simp [isClose, details, closingDetails, Kind.label]

namespace Source

theorem CalleeRule.accepts_permissive {t : Token} (h : CalleeRule.strict.accepts t = true) :
    CalleeRule.permissive.accepts t = true := by
  have hname : (t.kind == .name) = true := by simpa [accepts] using h
  simp [accepts, hname]

theorem CalleeRule.permissive_accepts_eq_false_iff {t : Token} :
    CalleeRule.permissive.accepts t = false ↔ t.isClose = true := by
  constructor
  · intro h
    simp only [accepts, beq_self_eq_true, Bool.true_and, Bool.or_eq_false_iff,
      Bool.not_eq_false'] at h
    exact h.2
  · intro h
    simp [accepts, h, Token.kind_of_isClose h]

/-! ## Reading under both rules -/

namespace Reading

theorem Takes.permissive {r s : Reading} {t : Token} (h : Takes .strict r t s) :
    Takes .permissive r t s := by
  cases h with
  | callee due accepted => exact .callee due (CalleeRule.accepts_permissive accepted)
  | opening due opens => exact .opening due opens
  | closing due closes inside => exact .closing due closes inside
  | literal due spells => exact .literal due spells

theorem Refuses.permissive {r : Reading} {t : Token} {f : Fault} (h : Refuses .strict r t f)
    (hf : ∀ u, f = .invalidCallee u → u.isClose = true) : Refuses .permissive r t f := by
  cases h with
  | callee due _ =>
    exact .callee due (CalleeRule.permissive_accepts_eq_false_iff.mpr (hf t rfl))
  | token due opens outside spells => exact .token due opens outside spells

theorem readAll_permissive_of_ok {r s : Reading} {ts : List Token}
    (h : r.readAll .strict ts = .ok s) : r.readAll .permissive ts = .ok s := by
  have hrun := readAll_ok_transport (fun _ _ _ ht => Takes.permissive ht) h
  simpa using hrun

theorem readAll_permissive_of_error {r : Reading} {ts : List Token} {f : Fault}
    (hf : ∀ u, f = .invalidCallee u → u.isClose = true) (h : r.readAll .strict ts = .error f) :
    r.readAll .permissive ts = .error f := by
  have hrun := readAll_error_transport (fun _ _ _ ht => Takes.permissive ht)
    (fun _ _ hr => Refuses.permissive hr hf) h
  simpa using hrun

end Reading

theorem parse_permissive_of_ok {ts : List Token} {p : Program} (h : parse .strict ts = .ok p) :
    parse .permissive ts = .ok p := by
  obtain ⟨r, hread, hc, rfl⟩ := parse_eq_ok_iff.mp h
  exact parse_eq_ok_iff.mpr ⟨r, Reading.readAll_permissive_of_ok hread, hc, rfl⟩

theorem parse_permissive_of_error {ts : List Token} {f : Fault}
    (hf : ∀ u, f = .invalidCallee u → u.isClose = true) (h : parse .strict ts = .error f) :
    parse .permissive ts = .error f := by
  rcases parse_eq_error h with hread | ⟨r, last, hread, hc, hlast, rfl⟩
  · exact parse_of_readAll_error (Reading.readAll_permissive_of_error hf hread)
  · rw [parse_of_readAll_ok (Reading.readAll_permissive_of_ok hread), hc, Token.endOf, hlast]
    rfl

theorem isClose_of_invalidCallee {ts : List Token} {t : Token}
    (h : parse .permissive ts = .error (.invalidCallee t)) : t ∈ ts ∧ t.isClose = true := by
  rcases parse_eq_error h with hread | ⟨_, _, _, _, _, hf⟩
  · obtain ⟨pre, u, post, r, rfl, _, hrefused⟩ := Reading.readAll_eq_error hread
    cases hrefused with
    | callee _ rejected =>
      exact ⟨by simp, CalleeRule.permissive_accepts_eq_false_iff.mp rejected⟩
  · contradiction

end Source

/-! ## Compiling under both rules -/

section Compiling

variable {verbose : Bool} {text : String} {ts : List Token}

theorem run_permissive_of_tokenize_error {f : LexFault} (h : tokenize text = .error f) :
    Pipeline.run ⟨verbose, true⟩ text = Pipeline.run ⟨verbose, false⟩ text := by
  rw [Pipeline.run, Pipeline.run, Pipeline.trace, Pipeline.trace, h]

theorem run_permissive_of_parse_eq (ht : tokenize text = .ok ts)
    (hp : Source.parse .permissive ts = Source.parse .strict ts) :
    Pipeline.run ⟨verbose, true⟩ text = Pipeline.run ⟨verbose, false⟩ text := by
  have htrace : Pipeline.trace ⟨verbose, false⟩ .permissive text =
      Pipeline.trace ⟨verbose, false⟩ .strict text := by
    rw [Pipeline.trace, Pipeline.trace, ht]
    simp only [hp]
  rw [Pipeline.run, Pipeline.run]
  exact congrArg (fun o : Outcome => { o with log := if verbose then o.log else [] }) htrace

/-- Both rules have the same outcome unless the strict one refuses a callee that
is no closing parenthesis. -/
theorem run_permissive_eq
    (h : ∀ d, compile ⟨verbose, false⟩ text = .error (.diagnostic d) → d.code = .invalidCallee →
      d.details = Token.closingDetails) :
    Pipeline.run ⟨verbose, true⟩ text = Pipeline.run ⟨verbose, false⟩ text := by
  cases ht : tokenize text with
  | error f => exact run_permissive_of_tokenize_error ht
  | ok ts =>
    refine run_permissive_of_parse_eq ht ?_
    cases hp : Source.parse .strict ts with
    | ok p => exact Source.parse_permissive_of_ok hp
    | error f =>
      refine Source.parse_permissive_of_error (fun t hf => ?_) hp
      subst hf
      obtain ⟨d, hd, _, hcode, hdetails, _⟩ :=
        @compile_reports_parsing ⟨verbose, false⟩ _ _ _ ht hp
      rw [Token.isClose_iff_details, ← h d hd hcode, hdetails]
      rfl

theorem details_of_invalidCallee {d : Diagnostic}
    (h : compile ⟨verbose, true⟩ text = .error (.diagnostic d)) (hcode : d.code = .invalidCallee) :
    d.details = Token.closingDetails := by
  cases ht : tokenize text with
  | error f =>
    obtain ⟨e, he, _, hcode', _⟩ := compile_reports_lexing ht ⟨verbose, true⟩
    cases h.symm.trans he
    rw [hcode] at hcode'
    cases f <;> contradiction
  | ok ts =>
    cases hp : Source.parse .permissive ts with
    | ok p =>
      rw [@compile_of_parse_ok ⟨verbose, true⟩ _ _ _ ht hp] at h
      contradiction
    | error f =>
      obtain ⟨e, he, _, hcode', hdetails, _⟩ :=
        @compile_reports_parsing ⟨verbose, true⟩ _ _ _ ht hp
      cases h.symm.trans he
      rw [hcode] at hcode'
      cases f with
      | unexpectedToken | endOfInput => contradiction
      | invalidCallee t =>
        have hclose := (Source.isClose_of_invalidCallee hp).2
        rw [hdetails]
        exact Token.isClose_iff_details.mp hclose

end Compiling

/-- The permissive rule extends the strict one: it keeps every program and every
fault but the refusal of a callee other than a closing parenthesis, and it
refuses no other callee than that. This holds of token lists and, with the
stages, the output and all that is reported, of program text. -/
theorem permissive_extends_strict :
    (∀ ts p, Source.parse .strict ts = .ok p → Source.parse .permissive ts = .ok p) ∧
    (∀ ts f, Source.parse .strict ts = .error f →
      (∀ t, f = .invalidCallee t → t.isClose = true) →
      Source.parse .permissive ts = .error f) ∧
    (∀ ts t, Source.parse .permissive ts = .error (.invalidCallee t) →
      t ∈ ts ∧ t.isClose = true) ∧
    ∀ (verbose : Bool) (text : String),
      let strict : Options := { verbose := verbose, anyCallee := false }
      let permissive : Options := { verbose := verbose, anyCallee := true }
      (∀ stages, (Pipeline.run strict text).result = .ok stages →
        (Pipeline.run permissive text).result = .ok stages ∧
          compile permissive text = compile strict text) ∧
      (∀ failure, compile strict text = .error failure →
        (∀ d, failure = .diagnostic d → d.code = .invalidCallee →
          d.details = [("kind", .text "paren"), ("text", .text ")")]) →
        compile permissive text = .error failure) ∧
      (∀ d, compile permissive text = .error (.diagnostic d) → d.code = .invalidCallee →
        d.details = [("kind", .text "paren"), ("text", .text ")")]) := by
  refine ⟨fun _ _ => Source.parse_permissive_of_ok,
    fun _ _ hp hf => Source.parse_permissive_of_error hf hp,
    fun _ _ => Source.isClose_of_invalidCallee, ?_⟩
  intro verbose text strict permissive
  refine ⟨fun stages hs => ?_, fun failure hf hexcept => ?_, fun d => details_of_invalidCallee⟩
  · have hrun : Pipeline.run permissive text = Pipeline.run strict text := by
      refine run_permissive_eq fun d hd _ => ?_
      have hc : compile strict text = .ok stages.output := by
        rw [compile, hs]
        rfl
      rw [hc] at hd
      contradiction
    exact ⟨hrun ▸ hs, by rw [compile, compile, hrun]⟩
  · have hrun : Pipeline.run permissive text = Pipeline.run strict text := by
      refine run_permissive_eq fun d hd => hexcept d ?_
      exact Except.error.inj (hf.symm.trans hd)
    rw [compile, hrun]
    exact hf

/-- A call within a call that has no callee is refused alike under both rules. -/
theorem permissive_extends_strict_empty_call :
    ∃ d, compile { anyCallee := false } "(f ())" = .error (.diagnostic d) ∧
      d.code = .invalidCallee ∧ d.details = [("kind", .text "paren"), ("text", .text ")")] ∧
      compile { anyCallee := true } "(f ())" = .error (.diagnostic d) := by
  have ht : tokenize "(f ())" = .ok [⟨.paren, "(", 0⟩, ⟨.name, "f", 1⟩, ⟨.paren, "(", 3⟩,
      ⟨.paren, ")", 4⟩, ⟨.paren, ")", 5⟩] := by decide +kernel
  obtain ⟨d, hd, _, hcode, hdetails, _⟩ :=
    @compile_reports_parsing { anyCallee := false } _ _ (.invalidCallee ⟨.paren, ")", 4⟩) ht
      (Source.parse_of_outcome rfl)
  refine ⟨d, hd, hcode, hdetails, ?_⟩
  have hsame := (permissive_extends_strict.2.2.2 false "(f ())").2.1
  refine hsame (.diagnostic d) hd fun e he _ => ?_
  obtain rfl : d = e := Failure.diagnostic.inj he
  exact hdetails

end ParenCall
