import ParenCall.Pipeline

/-! A session holds tokens, a program that was read and a program that is to
be written, and runs the stages one at a time. Both programs are trees that can
be edited in between, without any check. A command that fails leaves the
session as it was. -/

namespace ParenCall

namespace Tree

/-- The nodes below one that edits reach. Below a statement these are the
arguments of its call. -/
def members? : Tree → Option (List Tree)
  | .program _ body => some body
  | .call _ params => some params
  | .apply _ arguments => some arguments
  | .statement expression => expression.members?
  | .absent | .foreign _ | .literal _ _ | .identifier _ => none

def withMembers (members : List Tree) : Tree → Tree
  | .program language _ => .program language members
  | .call name _ => .call name members
  | .apply callee _ => .apply callee members
  | .statement expression => .statement (expression.withMembers members)
  | t => t

def rename (name : String) : Tree → Except Failure Tree
  | .call _ params => .ok (.call name params)
  | .apply (.identifier _) arguments => .ok (.apply (.identifier name) arguments)
  | .statement expression => (expression.rename name).map .statement
  | .program .source _ => .error (.noSuchField "Program" "name")
  | .literal .source l => .error (.noSuchField l.kind.label "name")
  | _ => .error .noSuchNode

def setValue (value : String) : Tree → Except Failure Tree
  | .literal language l => .ok (.literal language { l with value := value })
  | .absent | .foreign _ => .error .noSuchNode
  | t => .error (.noSuchField t.kind "value")

/-- The place a position means among `length` of them. A negative one counts
back from the end. -/
def place? (length : Nat) (position : Int) : Option Nat :=
  let i := if position < 0 then length + position else position
  if 0 ≤ i ∧ i < length then some i.toNat else none

/-- Changes the node that a path of positions leads to. -/
def changeAt (change : Tree → Except Failure Tree) : List Int → Tree → Except Failure Tree
  | [], t => change t
  | position :: path, t =>
    match t.members? with
    | none => .error .noSuchNode
    | some members =>
      match place? members.length position with
      | none => .error .noSuchNode
      | some i =>
        match members[i]? with
        | none => .error .noSuchNode
        | some child => do
          let changed ← changeAt change path child
          .ok (t.withMembers (members.set i changed))

end Tree

inductive Edit where
  | append (node : Tree)
  | remove (position : Int)
  | rename (name : String)
  | setValue (value : String)

def Edit.apply : Edit → Tree → Except Failure Tree
  | .append node, t =>
    match t.members? with
    | some members => .ok (t.withMembers (members ++ [node]))
    | none => .error .noSuchNode
  | .remove position, t =>
    match t.members? with
    | some members =>
      match Tree.place? members.length position with
      | some i => .ok (t.withMembers (members.eraseIdx i))
      | none => .error .nothingToRemove
    | none => .error .noSuchNode
  | .rename name, t => t.rename name
  | .setValue value, t => t.setValue value

inductive Command where
  | lex (text : String)
  | dropTokens (start stop : Int)
  | permit (rule : Source.CalleeRule)
  | parse
  | lower
  | render
  | edit (language : Language) (path : List Int) (edit : Edit)

inductive Answer where
  | tokens (tokens : List Token)
  | permitted (rule : Source.CalleeRule)
  | parsed (program : Source.Program)
  | lowered (node : Target.Node) (exited : List String)
  | rendered (output : String)
  | edited

structure Session where
  rule : Source.CalleeRule
  tokens : List Token := []
  source : Tree := .program .source []
  target : Tree := .program .target []

namespace Session

/-- Leaves out the items from `start` up to, not including, `stop`. -/
def dropBetween {α : Type} (start stop : Nat) (items : List α) : List α :=
  items.take start ++ items.drop (max start stop)

def perform (s : Session) : Command → Except Failure (Answer × Session)
  | .lex text => do
    let tokens ← (tokenize text).mapError LexFault.failure
    .ok (.tokens tokens, { s with tokens := tokens })
  | .dropTokens start stop =>
    let length := s.tokens.length
    let tokens := dropBetween (Text.position length start) (Text.position length stop) s.tokens
    .ok (.tokens tokens, { s with tokens := tokens })
  | .permit rule => .ok (.permitted rule, { s with rule := rule })
  | .parse => do
    let program ← (Source.parse s.rule s.tokens).mapError Source.Fault.failure
    .ok (.parsed program, { s with source := program.tree })
  | .lower => do
    let (events, lowered) := Lowering.lower ⟨false, true⟩ s.source
    let node ← lowered.mapError Lowering.Fault.failure
    .ok (.lowered node (events.map Event.kind), { s with target := node.tree })
  | .render => do
    let output ← (Rendering.render s.target).mapError Rendering.Fault.failure
    .ok (.rendered output, s)
  | .edit .source path edit => do
    let tree ← s.source.changeAt edit.apply path
    .ok (.edited, { s with source := tree })
  | .edit .target path edit => do
    let tree ← s.target.changeAt edit.apply path
    .ok (.edited, { s with target := tree })

def run (s : Session) : List Command → List (Except Failure Answer)
  | [] => []
  | c :: cs =>
    match s.perform c with
    | .ok (answer, next) => .ok answer :: next.run cs
    | .error f => .error f :: s.run cs

end Session

end ParenCall
