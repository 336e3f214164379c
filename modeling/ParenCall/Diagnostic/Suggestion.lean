import ParenCall.Diagnostic
import ParenCall.Text.Digit

/-! Advice for common mistakes. Unbalanced parentheses are told by counting
them in the whole source text, those inside strings included. Advice on a
character looks at the character, so it cannot be given when a diagnostic that
was made by hand has a number or a flag in its place. -/

namespace ParenCall

/-- Advice was asked about a detail that is no character. -/
structure NoCharacter where
  detail : Detail
deriving DecidableEq, Repr

namespace Diagnostic

def closesNothing (d : Diagnostic) : Bool := d.details.lookup "text" == some (.text ")")

def balanceAdvice (source : String) (d : Diagnostic) : Option String :=
  let opened := source.toList.count '('
  let closed := source.toList.count ')'
  if opened ≠ closed then
    some ("Unmatched parentheses: found " ++ toString opened ++ " '(' but " ++ toString closed
      ++ " ')'")
  else if d.closesNothing then some "A ')' appears outside of any call"
  else none

def calleeAdvice (d : Diagnostic) : String :=
  if d.closesNothing then "Empty calls are not allowed: write '(name args...)'"
  else "Calls start with a function name, e.g. '(add 1 2)'"

def characterAdvice (char : Detail) : Except NoCharacter String :=
  match char with
  | .text c =>
    if c = "-" ∨ c = "." then .ok "Only non-negative whole numbers are supported"
    else if c = "_" then .ok "Names may only contain letters"
    else if Text.allDigits c then .ok "Numbers may only use the digits 0-9"
    else .ok "Only parentheses, numbers, quoted strings and letter names are allowed"
  | .nothing => .ok "Only parentheses, numbers, quoted strings and letter names are allowed"
  | .flag _ | .int _ => .error ⟨char⟩

def suggest (source : String) (d : Diagnostic) : Except NoCharacter (Option String) :=
  match d.code with
  | .endOfInput | .unexpectedToken => .ok (d.balanceAdvice source)
  | .invalidCallee => .ok (some d.calleeAdvice)
  | .unterminatedString =>
    .ok (some ("Close the string with a matching "
      ++ ((d.details.lookup "quote").getD .nothing).plain))
  | .unexpectedCharacter =>
    (characterAdvice ((d.details.lookup "char").getD .nothing)).map some
  | .unhandledKind => .ok none

end Diagnostic

end ParenCall
