import ParenCall.Diagnostic.Suggestion
import ParenCall.Issue
import ParenCall.Lexeme
import ParenCall.Source.Cursor
import ParenCall.Text.Line

/-! Everything that can go wrong, and how the faults of the single stages are
reported. -/

namespace ParenCall

inductive Failure where
  | diagnostic (diagnostic : Diagnostic)
  | missingDetail (missing : MissingDetail)
  | noCharacter (asked : NoCharacter)
  | invalid (issues : List Issue)
  /-- A statement has no expression to render. -/
  | emptyStatement
  /-- A call has no callee to render. -/
  | emptyCall
  /-- An edit names a node that is not there. -/
  | noSuchNode
  /-- An edit removes a node that is not there. -/
  | nothingToRemove
  /-- An edit sets a field that nodes of this kind do not have. -/
  | noSuchField (kind field : String)
  /-- Calls stand too deep inside one another to be written out. -/
  | tooDeep
deriving DecidableEq, Repr

namespace Failure

def ofBuilt : Except MissingDetail Diagnostic → Failure
  | .ok d => .diagnostic d
  | .error missing => .missingDetail missing

def raise (stage : Stage) (code : Code) (details : Details) (offset : Option Int) : Failure :=
  ofBuilt (Diagnostic.build stage code details offset {})

/-- A diagnostic with the line it is on and advice from the source text. -/
def hinted (source : String) : Failure → Failure
  | .diagnostic d =>
    match d.suggest source with
    | .ok advice => ofBuilt (d.withHints ⟨d.offset.bind (Text.lineContext source), advice⟩)
    | .error asked => .noCharacter asked
  | f => f

end Failure

def LexFault.failure : LexFault → Failure
  | .unexpectedCharacter char offset =>
    .raise .lexing .unexpectedCharacter [("char", .text (String.singleton char))] (some offset)
  | .unterminatedString quote offset =>
    .raise .lexing .unterminatedString [("quote", .text (String.singleton quote.mark))]
      (some offset)

def Token.details (t : Token) : Details := [("kind", .text t.kind.label), ("text", .text t.text)]

def Source.Fault.failure : Source.Fault → Failure
  | .unexpectedToken t => .raise .parsing .unexpectedToken t.details (some t.offset)
  | .endOfInput offset => .raise .parsing .endOfInput [] offset
  | .invalidCallee t => .raise .parsing .invalidCallee t.details (some t.offset)

/-- Changing what was made does not make up for a failure. -/
theorem exists_of_map {ε α β : Type} {x : Except ε α} {f : α → β} {b : β}
    (h : x.map f = .ok b) : ∃ a, x = .ok a ∧ b = f a := by
  cases x with
  | error e => cases h
  | ok a => exact ⟨a, rfl, (Except.ok.inj h).symm⟩

end ParenCall
