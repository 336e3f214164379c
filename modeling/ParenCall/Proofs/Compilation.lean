import ParenCall.Pipeline
import ParenCall.Proofs.Lowering
import ParenCall.Proofs.Rendering
import ParenCall.Proofs.Report

/-! # What compiling writes

The text that a source program is compiled to, by recursion on that program.
Compiling returns this text whenever the source can be cut and parsed. If it
cannot, the report of the stage that failed comes out with hints added to it.
The stages behind the parser never fail on a parsed program. -/

namespace ParenCall

namespace Source

def Expr.written : Expr → String :=
  Expr.fold
    (fun
      | ⟨.number, value⟩ => value
      | ⟨.string, value⟩ => "\"" ++ value ++ "\"")
    fun name params => name ++ "(" ++ String.intercalate ", " params ++ ")"

theorem Expr.written_call (name : String) (params : List Expr) :
    (Expr.call name params).written =
      name ++ "(" ++ String.intercalate ", " (params.map Expr.written) ++ ")" := Expr.fold_call ..

/-- An expression as an item of a body, where calls end in a semicolon. -/
def Expr.writtenItem : Expr → String
  | .literal l => (Expr.literal l).written
  | .call name params => (Expr.call name params).written ++ ";"

def Program.written (p : Program) : String :=
  String.intercalate "\n" (p.body.map Expr.writtenItem)

theorem written_literal (l : Literal) : (Expr.literal l).written = Rendering.renderLiteral l := by
  obtain ⟨k, value⟩ := l
  cases k <;> rfl

theorem Expr.written_lowered (e : Expr) : e.lowered.written = e.written := by
  induction e with
  | literal l => exact (written_literal l).symm
  | call name params ih =>
    have hparams : (params.map Expr.lowered).map Target.Expr.written = params.map Expr.written := by
      rw [List.map_map]
      exact List.map_congr_left ih
    rw [Expr.lowered_call, Target.Expr.written_call, hparams, Expr.written_call]
    rfl

theorem Expr.written_statement (e : Expr) : e.statement.written = e.writtenItem := by
  cases e with
  | literal l => exact (written_literal l).symm
  | call name params =>
    rw [Expr.statement, Target.Statement.written, Expr.written_lowered]
    rfl

theorem Program.written_lowered (p : Program) : p.lowered.written = p.written := by
  have hbody : p.lowered.body.map Target.Statement.written = p.body.map Expr.writtenItem := by
    rw [Program.lowered, List.map_map]
    exact List.map_congr_left fun e _ => e.written_statement
  rw [Target.Program.written, hbody]
  rfl

theorem Program.render_lowered (p : Program) :
    Rendering.render (Target.Node.program p.lowered).tree = .ok p.written := by
  rw [← p.written_lowered]
  exact Rendering.render_program p.lowered

end Source

/-! ## The outcome of a run -/

theorem compile_of_tokenize_error {text : String} {f : LexFault} (h : tokenize text = .error f)
    (options : Options) : compile options text = .error (f.failure.hinted text) := by
  rw [compile, Pipeline.run, Pipeline.trace, h]
  rfl

theorem compile_of_parse_error {options : Options} {text : String} {ts : List Token}
    {f : Source.Fault} (ht : tokenize text = .ok ts)
    (hp : Source.parse options.calleeRule ts = .error f) :
    compile options text = .error (f.failure.hinted text) := by
  rw [compile, Pipeline.run, Pipeline.trace, ht]
  simp only [hp]
  rfl

theorem Pipeline.trace_of_parse_ok {rule : Source.CalleeRule} {text : String} {ts : List Token}
    {p : Source.Program} (ht : tokenize text = .ok ts) (hp : Source.parse rule ts = .ok p)
    (hooks : Hooks) :
    trace hooks rule text =
      ⟨lexedLine ts :: parsedLine p :: (Tree.events hooks .absent p.tree).map enteredLine ++
          [renderedLine p.written],
        .ok ⟨⟨ts, p, .program p.lowered⟩, p.written⟩⟩ := by
  rw [trace, ht]
  simp only [hp, Lowering.lower_program_eq, p.render_lowered]

theorem compile_of_parse_ok {options : Options} {text : String} {ts : List Token}
    {p : Source.Program} (ht : tokenize text = .ok ts)
    (hp : Source.parse options.calleeRule ts = .ok p) : compile options text = .ok p.written := by
  rw [compile, Pipeline.run, Pipeline.trace_of_parse_ok ht hp]
  rfl

theorem compile_eq_ok {options : Options} {text output : String}
    (h : compile options text = .ok output) :
    ∃ ts p, tokenize text = .ok ts ∧ Source.parse options.calleeRule ts = .ok p ∧
      output = p.written := by
  cases ht : tokenize text with
  | error f =>
    rw [compile_of_tokenize_error ht] at h
    contradiction
  | ok ts =>
    cases hp : Source.parse options.calleeRule ts with
    | error f =>
      rw [compile_of_parse_error ht hp] at h
      contradiction
    | ok p =>
      rw [compile_of_parse_ok ht hp] at h
      exact ⟨ts, p, rfl, hp, (Except.ok.inj h).symm⟩

theorem compile_eq_error {options : Options} {source : String} {failure : Failure}
    (h : compile options source = .error failure) :
    ∃ d : Diagnostic, failure = .diagnostic (d.advised source) ∧
      ((∃ f : LexFault, tokenize source = .error f ∧ d.code = f.code ∧ d.details = f.details ∧
          d.offset = some (f.offset : Int)) ∨
        ∃ ts f, tokenize source = .ok ts ∧ Source.parse options.calleeRule ts = .error f ∧
          d.code = f.code ∧ d.details = f.details ∧ d.offset = f.offset) := by
  cases ht : tokenize source with
  | error f =>
    obtain ⟨d, hd, hraised, _, hreport⟩ := f.failure_raised
    rw [compile_of_tokenize_error ht, hd, Failure.hinted_of_raised hraised] at h
    exact ⟨d, (Except.error.inj h).symm, .inl ⟨f, rfl, hreport⟩⟩
  | ok ts =>
    cases hp : Source.parse options.calleeRule ts with
    | ok p =>
      rw [compile_of_parse_ok ht hp] at h
      contradiction
    | error f =>
      obtain ⟨d, hd, hraised, _, hreport⟩ := f.failure_raised
      rw [compile_of_parse_error ht hp, hd, Failure.hinted_of_raised hraised] at h
      exact ⟨d, (Except.error.inj h).symm, .inr ⟨ts, f, rfl, hp, hreport⟩⟩

theorem compile_reports_lexing {text : String} {f : LexFault} (h : tokenize text = .error f)
    (options : Options) :
    ∃ d, compile options text = .error (.diagnostic d) ∧ d.stage = .lexing ∧
      d.code = f.code ∧ d.details = f.details ∧ d.offset = some (f.offset : Int) := by
  obtain ⟨d, hd, hraised, hreport⟩ := f.failure_raised
  refine ⟨d.advised text, ?_, hreport⟩
  rw [compile_of_tokenize_error h, hd, Failure.hinted_of_raised hraised]

theorem compile_reports_parsing {options : Options} {text : String} {ts : List Token}
    {f : Source.Fault} (ht : tokenize text = .ok ts)
    (hp : Source.parse options.calleeRule ts = .error f) :
    ∃ d, compile options text = .error (.diagnostic d) ∧ d.stage = .parsing ∧
      d.code = f.code ∧ d.details = f.details ∧ d.offset = f.offset := by
  obtain ⟨d, hd, hraised, hreport⟩ := f.failure_raised
  refine ⟨d.advised text, ?_, hreport⟩
  rw [compile_of_parse_error ht hp, hd, Failure.hinted_of_raised hraised]

/-- Compiling returns the text of the program that was parsed. When the source
cannot be cut or parsed, it fails with the report of that stage, which differs
only in its hints. It fails in no other way. -/
theorem compile_is_translation (options : Options) (text : String) :
    (match tokenize text with
    | .error f => ∃ d hints, f.failure = .diagnostic d ∧ d.stage = .lexing ∧
        compile options text = .error (.diagnostic { d with hints := hints })
    | .ok ts =>
      match Source.parse options.calleeRule ts with
      | .error f => ∃ d hints, f.failure = .diagnostic d ∧ d.stage = .parsing ∧
          compile options text = .error (.diagnostic { d with hints := hints })
      | .ok p => compile options text = .ok p.written) ∧
    ∀ failure, compile options text = .error failure →
      ∃ d, failure = .diagnostic d ∧ (d.stage = .lexing ∨ d.stage = .parsing) := by
  cases ht : tokenize text with
  | error f =>
    obtain ⟨d, hd, hraised, hstage, _⟩ := f.failure_raised
    have hc : compile options text = .error (.diagnostic (d.advised text)) := by
      rw [compile_of_tokenize_error ht, hd, Failure.hinted_of_raised hraised]
    refine ⟨⟨d, _, hd, hstage, hc⟩, fun failure hf => ?_⟩
    exact ⟨d.advised text, Except.error.inj (hf.symm.trans hc), .inl hstage⟩
  | ok ts =>
    cases hp : Source.parse options.calleeRule ts with
    | error f =>
      obtain ⟨d, hd, hraised, hstage, _⟩ := f.failure_raised
      have hc : compile options text = .error (.diagnostic (d.advised text)) := by
        rw [compile_of_parse_error ht hp, hd, Failure.hinted_of_raised hraised]
      simp only [hp]
      refine ⟨⟨d, _, hd, hstage, hc⟩, fun failure hf => ?_⟩
      exact ⟨d.advised text, Except.error.inj (hf.symm.trans hc), .inr hstage⟩
    | ok p =>
      have hc := compile_of_parse_ok ht hp
      simp only [hp]
      refine ⟨hc, fun failure hf => ?_⟩
      rw [hc] at hf
      contradiction

end ParenCall
