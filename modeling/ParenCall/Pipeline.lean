import ParenCall.Lowering
import ParenCall.Options
import ParenCall.Rendering
import ParenCall.Source.Parser

/-! The whole way from source text to output text, keeping what each stage
made. The stages write a log, which is kept only if it is asked for. Faults in
the source text are reported with the line they are on and with advice. -/

namespace ParenCall

/-- What is made of a source before it is rendered. -/
structure Front where
  tokens : List Token
  source : Source.Program
  target : Target.Node
deriving DecidableEq

structure Stages extends Front where
  output : String

structure Outcome where
  log : List String
  result : Except Failure Stages

namespace Pipeline

def lexedLine (tokens : List Token) : String := "Lexed " ++ toString tokens.length ++ " tokens"

def parsedLine (p : Source.Program) : String :=
  "Parsed " ++ toString p.body.length ++ " top-level expressions"

def enteredLine (e : Event) : String :=
  "Transforming " ++ e.kind ++ " (parent: " ++ e.parent.getD "-" ++ ")"

def renderedLine (output : String) : String :=
  "Generated " ++ toString output.length ++ " characters"

def logLine (message : String) : String := "\x1b[94mDEBUG:\x1b[0m " ++ message ++ "\n"

/-- All stages, with the full log, which shows of lowering what the hooks are
told. -/
def trace (hooks : Hooks) (rule : Source.CalleeRule) (text : String) : Outcome :=
  match tokenize text with
  | .error f => ⟨[], .error (f.failure.hinted text)⟩
  | .ok tokens =>
    match Source.parse rule tokens with
    | .error f => ⟨[lexedLine tokens], .error (f.failure.hinted text)⟩
    | .ok source =>
      let (events, lowered) := Lowering.lower hooks source.tree
      let log := lexedLine tokens :: parsedLine source :: events.map enteredLine
      match lowered with
      | .error f => ⟨log, .error f.failure⟩
      | .ok target =>
        match Rendering.render target.tree with
        | .error f => ⟨log, .error f.failure⟩
        | .ok output => ⟨log ++ [renderedLine output], .ok ⟨⟨tokens, source, target⟩, output⟩⟩

def run (options : Options) (text : String) : Outcome :=
  let outcome := trace ⟨options.verbose, false⟩ options.calleeRule text
  { outcome with log := if options.verbose then outcome.log else [] }

end Pipeline

def compile (options : Options) (text : String) : Except Failure String :=
  (Pipeline.run options text).result.map Stages.output

end ParenCall
