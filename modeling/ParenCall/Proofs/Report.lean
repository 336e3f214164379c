import ParenCall.Failure

/-! # What the faults of a stage report

Every fault in the source text is reported as a diagnostic: its details fill
the template of its code, so building the diagnostic cannot fail, neither when
it is raised nor when hints are added to it later. All its details are texts, so
advice on it can be given. Hints change nothing else. -/

namespace ParenCall

def Detail.isText : Detail → Bool
  | .text _ => true
  | .nothing | .flag _ | .int _ => false

namespace Diagnostic

/-- Filled in with texts and without hints, as a stage raises it. -/
structure Raised (d : Diagnostic) : Prop where
  filled : d.code.template.fill d.details = .ok d.message
  texts : d.details.all (·.2.isText) = true
  unhinted : d.hints = {}

/-- What is suggested, if anything; nothing also when advice cannot be given. -/
def advice (source : String) (d : Diagnostic) : Option String :=
  match d.suggest source with
  | .ok advice => advice
  | .error _ => none

theorem suggest_of_advice {source advice : String} {d : Diagnostic}
    (h : d.advice source = some advice) : d.suggest source = .ok (some advice) := by
  rw [Diagnostic.advice] at h
  split at h
  · rename_i hsuggest
    rw [hsuggest, h]
  · contradiction

/-- With the line it is on and advice from the source text. -/
def advised (source : String) (d : Diagnostic) : Diagnostic :=
  { d with hints := ⟨d.offset.bind (Text.lineContext source), d.advice source⟩ }

theorem exists_characterAdvice {details : Details} (h : details.all (·.2.isText) = true)
    (name : String) :
    ∃ advice, characterAdvice ((details.lookup name).getD .nothing) = .ok advice := by
  cases hlookup : details.lookup name with
  | none => exact ⟨_, rfl⟩
  | some detail =>
    obtain ⟨before, after, hdetails, _⟩ := List.lookup_eq_some_iff.mp hlookup
    have htext := List.all_eq_true.mp h (name, detail) (by simp [hdetails])
    cases detail with
    | text c =>
      rw [Option.getD_some, characterAdvice]
      split
      · exact ⟨_, rfl⟩
      · split
        · exact ⟨_, rfl⟩
        · split <;> exact ⟨_, rfl⟩
    | nothing | flag | int => contradiction

theorem suggest_of_texts {d : Diagnostic} (h : d.details.all (·.2.isText) = true)
    (source : String) : d.suggest source = .ok (d.advice source) := by
  have hok : ∃ advice, d.suggest source = .ok advice := by
    unfold suggest
    split
    · exact ⟨_, rfl⟩
    · exact ⟨_, rfl⟩
    · exact ⟨_, rfl⟩
    · exact ⟨_, rfl⟩
    · obtain ⟨advice, hadvice⟩ := exists_characterAdvice h "char"
      rw [hadvice]
      exact ⟨some advice, rfl⟩
    · exact ⟨_, rfl⟩
  obtain ⟨advice, hadvice⟩ := hok
  rw [Diagnostic.advice, hadvice]

theorem build_of_fill {stage : Stage} {code : Code} {details : Details} {offset : Option Int}
    {hints : Hints} {message : String} (h : code.template.fill details = .ok message) :
    build stage code details offset hints =
      .ok ⟨stage, code, details, offset, hints, message⟩ := by
  rw [build, h]
  rfl

theorem withHints_of_fill {d : Diagnostic} (h : d.code.template.fill d.details = .ok d.message)
    (hints : Hints) :
    d.withHints hints = .ok
      { d with
        hints := ⟨hints.context.or d.hints.context, hints.suggestion.or d.hints.suggestion⟩ } := by
  rw [withHints, build_of_fill h]

theorem withHints_of_raised {d : Diagnostic} (h : d.Raised) (hints : Hints) :
    d.withHints hints = .ok { d with hints := hints } := by
  rw [withHints_of_fill h.filled, h.unhinted, Option.or_none, Option.or_none]

end Diagnostic

namespace Failure

theorem hinted_of_raised {d : Diagnostic} (h : d.Raised) (source : String) :
    (Failure.diagnostic d).hinted source = .diagnostic (d.advised source) := by
  rw [hinted, Diagnostic.suggest_of_texts h.texts]
  dsimp only
  rw [Diagnostic.withHints_of_raised h]
  rfl

theorem raise_of_fill {stage : Stage} {code : Code} {details : Details} {offset : Option Int}
    {message : String} (h : code.template.fill details = .ok message)
    (texts : details.all (·.2.isText) = true) :
    ∃ d, raise stage code details offset = .diagnostic d ∧ d.Raised ∧ d.stage = stage ∧
      d.code = code ∧ d.details = details ∧ d.offset = offset := by
  refine ⟨⟨stage, code, details, offset, {}, message⟩, ?_, ⟨h, texts, rfl⟩, rfl, rfl, rfl, rfl⟩
  rw [raise, Diagnostic.build_of_fill h]
  rfl

/-- The report of a stage on a node of a kind that it does not handle. -/
def unknownKind (stage : Stage) (kind : String) : Failure :=
  .diagnostic
    { stage := stage
      code := .unhandledKind
      details := [("kind", .text kind)]
      offset := none
      hints := {}
      message := "Unhandled node kind '" ++ kind ++ "'" }

theorem raise_unhandledKind (stage : Stage) (kind : String) :
    raise stage .unhandledKind [("kind", .text kind)] none = unknownKind stage kind := by
  have hfill : Code.unhandledKind.template.fill [("kind", .text kind)] =
      .ok ("Unhandled node kind '" ++ (kind ++ "'")) := rfl
  rw [raise, Diagnostic.build_of_fill hfill, ← String.append_assoc]
  rfl

end Failure

namespace LexFault

def code : LexFault → Code
  | .unexpectedCharacter _ _ => .unexpectedCharacter
  | .unterminatedString _ _ => .unterminatedString

def details : LexFault → Details
  | .unexpectedCharacter char _ => [("char", .text (String.singleton char))]
  | .unterminatedString quote _ => [("quote", .text (String.singleton quote.mark))]

def offset : LexFault → Nat
  | .unexpectedCharacter _ offset | .unterminatedString _ offset => offset

theorem failure_raised (f : LexFault) :
    ∃ d, f.failure = .diagnostic d ∧ d.Raised ∧ d.stage = .lexing ∧
      d.code = f.code ∧ d.details = f.details ∧ d.offset = some (f.offset : Int) := by
  cases f with
  | unexpectedCharacter char offset => exact Failure.raise_of_fill rfl rfl
  | unterminatedString quote offset => exact Failure.raise_of_fill rfl rfl

end LexFault

namespace Source.Fault

def code : Fault → Code
  | .unexpectedToken _ => .unexpectedToken
  | .endOfInput _ => .endOfInput
  | .invalidCallee _ => .invalidCallee

def details : Fault → Details
  | .unexpectedToken t | .invalidCallee t => t.details
  | .endOfInput _ => []

def offset : Fault → Option Int
  | .unexpectedToken t | .invalidCallee t => some t.offset
  | .endOfInput offset => offset

theorem failure_raised (f : Fault) :
    ∃ d, f.failure = .diagnostic d ∧ d.Raised ∧ d.stage = .parsing ∧
      d.code = f.code ∧ d.details = f.details ∧ d.offset = f.offset := by
  cases f with
  | unexpectedToken t => exact Failure.raise_of_fill rfl rfl
  | endOfInput offset => exact Failure.raise_of_fill rfl rfl
  | invalidCallee t => exact Failure.raise_of_fill rfl rfl

end Source.Fault

end ParenCall
