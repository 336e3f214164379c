import ParenCall.Diagnostic.Template

/-! Diagnostics: what went wrong, in which stage, where, and what may help. A
diagnostic is built from a code and its details, which fill the code's message
template; building fails when the template needs a detail that is not given.
Details that the template does not use are kept. -/

namespace ParenCall

inductive Stage where
  | compiling
  | lexing
  | parsing
  | lowering
  | rendering
deriving DecidableEq, Repr

def Stage.label : Stage → String
  | .compiling => "Compilation"
  | .lexing => "Lex"
  | .parsing => "Parse"
  | .lowering => "Transform"
  | .rendering => "Code generation"

inductive Code where
  | unexpectedCharacter
  | unterminatedString
  | unexpectedToken
  | endOfInput
  | invalidCallee
  | unhandledKind
deriving DecidableEq, Repr

def Code.all : List Code :=
  [.unexpectedCharacter, .unterminatedString, .unexpectedToken, .endOfInput, .invalidCallee,
    .unhandledKind]

def Code.template : Code → Template
  | .unexpectedCharacter => [.fixed "Unexpected character ", .quoted "char"]
  | .unterminatedString => [.fixed "Unterminated string literal starting with ", .plain "quote"]
  | .unexpectedToken => [.fixed "Unexpected ", .plain "kind", .fixed " token ", .quoted "text"]
  | .endOfInput => [.fixed "Unexpected end of input: a call is missing its closing ')'"]
  | .invalidCallee =>
    [.fixed "Invalid callee: expected a name after '(' but found ", .plain "kind",
      .fixed " token ", .quoted "text"]
  | .unhandledKind => [.fixed "Unhandled node kind '", .plain "kind", .fixed "'"]

/-- The source line in question, and advice on how to mend it. -/
structure Hints where
  context : Option String := none
  suggestion : Option String := none
deriving DecidableEq, Repr

structure Diagnostic where
  stage : Stage
  code : Code
  details : Details
  offset : Option Int
  hints : Hints
  message : String
deriving DecidableEq, Repr

namespace Diagnostic

def build (stage : Stage) (code : Code) (details : Details) (offset : Option Int)
    (hints : Hints) : Except MissingDetail Diagnostic := do
  let message ← code.template.fill details
  .ok ⟨stage, code, details, offset, hints, message⟩

/-- Hints that are given replace those the diagnostic has. -/
def withHints (d : Diagnostic) (hints : Hints) : Except MissingDetail Diagnostic :=
  build d.stage d.code d.details d.offset
    ⟨hints.context.or d.hints.context, hints.suggestion.or d.hints.suggestion⟩

/-- The diagnostic itself, then what each further set of hints makes of it. -/
def withEach (d : Diagnostic) : List Hints → Except MissingDetail (List Diagnostic)
  | [] => .ok [d]
  | h :: hs => do
    let next ← d.withHints h
    let rest ← next.withEach hs
    .ok (d :: rest)

/-- A line that is left out when there is nothing to put on it. -/
def optionalLine (lead : String) : Option String → String
  | some text => if text = "" then "" else lead ++ text
  | none => ""

def report (d : Diagnostic) : String :=
  d.stage.label ++ " error"
    ++ (match d.offset with
      | some offset => " at offset " ++ toString offset
      | none => "")
    ++ ": " ++ d.message
    ++ optionalLine "\n   > " d.hints.context
    ++ optionalLine "\n   hint: " d.hints.suggestion

end Diagnostic

end ParenCall
