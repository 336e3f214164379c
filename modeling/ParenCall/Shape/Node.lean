import ParenCall.Shape.Checked

/-! The shapes of the nodes of both languages. Where several kinds of node may
stand, the field `type` decides which one is meant, and the issues inside carry
its name in their path. Below a record calls can stand inside one another down to
a fixed depth; a call deeper than that is an issue, and nothing in it is looked
at. -/

namespace ParenCall

/-- What an expression is, in either language. -/
inductive ExprTag where
  | literal (kind : Literal.Kind)
  | call
deriving DecidableEq, Repr

def ExprTag.label : ExprTag → String
  | .literal kind => kind.label
  | .call => "CallExpression"

def ExprTag.all : List ExprTag := [.literal .number, .literal .string, .call]

def ExprTag.ofLabel? (label : String) : Option ExprTag := all.find? (·.label == label)

theorem ExprTag.ofLabel?_label (t : ExprTag) : ofLabel? t.label = some t := by
  rcases t with (_ | _) | _ <;> decide

/-- What an item of a written program's body is. -/
inductive StatementTag where
  | expression
  | literal (kind : Literal.Kind)
deriving DecidableEq, Repr

def StatementTag.label : StatementTag → String
  | .expression => "ExpressionStatement"
  | .literal kind => kind.label

def StatementTag.all : List StatementTag := [.expression, .literal .number, .literal .string]

def StatementTag.ofLabel? (label : String) : Option StatementTag := all.find? (·.label == label)

theorem StatementTag.ofLabel?_label (t : StatementTag) : ofLabel? t.label = some t := by
  rcases t with _ | (_ | _) <;> decide

namespace Shape

open Checked

/-- A record with its name in front. -/
def node (type : String) (fields : Fields) : Value := .object (("type", .text type) :: fields)

def literalValue (kind : Literal.Kind) (fields : Fields) : Checked String :=
  both (fun _ value => value) (typeField kind.label fields) (required "value" text fields)

def literal (kind : Literal.Kind) (fields : Fields) : Checked Literal :=
  under (.field kind.label) ((literalValue kind fields).map (⟨kind, ·⟩))

/-- How many calls may stand inside one another below a record. -/
def maxNesting : Nat := 254

/-- How the calls of a language are written as data: a field for what is called
and a field for the parts of the call. -/
structure Dialect (η α : Type) where
  headField : String
  checkHead : Value → Checked η
  dumpHead : η → Value
  partsField : String
  literal : Literal → α
  call : η → List α → α

namespace Dialect

variable {η α : Type}

def head (s : Dialect η α) (fields : Fields) : Checked η :=
  both (fun _ head => head) (typeField "CallExpression" fields)
    (required s.headField s.checkHead fields)

mutual

/-- An expression with at most `room` calls inside one another. -/
def expr (s : Dialect η α) (room : Nat) : Value → Checked α
  | .object fields =>
    match tag ExprTag.ofLabel? fields with
    | .error issues => .error issues
    | .ok (.literal kind) => (Shape.literal kind fields).map s.literal
    | .ok .call =>
      under (.field "CallExpression") <|
        match room with
        | 0 => issue .tooDeep
        | room + 1 => both s.call (s.head fields) (s.parts room fields)
  | _ => issue .notTagged

/-- The parts among the fields of a call; none if they are left out. -/
def parts (s : Dialect η α) (room : Nat) : Fields → Checked (List α)
  | [] => .ok []
  | (name, value) :: fields =>
    if name = s.partsField then under (.field name) (s.exprList room value)
    else s.parts room fields

def exprList (s : Dialect η α) (room : Nat) : Value → Checked (List α)
  | .list items => s.exprs room 0 items
  | _ => issue .notList

def exprs (s : Dialect η α) (room i : Nat) : List Value → Checked (List α)
  | [] => .ok []
  | item :: items =>
    both List.cons (under (.index i) (s.expr room item)) (s.exprs room (i + 1) items)

end

end Dialect

namespace Source

open ParenCall.Source

def dialect : Dialect String Expr where
  headField := "name"
  checkHead := text
  dumpHead := .text
  partsField := "params"
  literal := .literal
  call := .call

def call (fields : Fields) : Checked Call :=
  both Call.mk (dialect.head fields) (dialect.parts maxNesting fields)

def program (fields : Fields) : Checked Program :=
  both (fun _ body => ⟨body⟩) (typeField "Program" fields)
    (optional "body" [] (dialect.exprList maxNesting) fields)

end Source

namespace Target

open ParenCall.Target

def identifier (fields : Fields) : Checked Identifier :=
  both (fun _ name => ⟨name⟩) (typeField "Identifier" fields) (required "name" text fields)

def dumpIdentifier (i : Identifier) : Value := node "Identifier" [("name", .text i.name)]

def dialect : Dialect Identifier Expr where
  headField := "callee"
  checkHead := record identifier
  dumpHead := dumpIdentifier
  partsField := "arguments"
  literal := .literal
  call := .call

def call (fields : Fields) : Checked Call :=
  both Call.mk (dialect.head fields) (dialect.parts maxNesting fields)

/-- The expression a statement wraps. -/
def wrapped (fields : Fields) : Checked Expr :=
  both (fun _ e => e) (typeField "ExpressionStatement" fields)
    (required "expression" (dialect.expr maxNesting) fields)

def statement : Value → Checked Statement
  | .object fields =>
    match tag StatementTag.ofLabel? fields with
    | .error issues => .error issues
    | .ok (.literal kind) => (literal kind fields).map .literal
    | .ok .expression =>
      under (.field "ExpressionStatement") ((wrapped fields).map .expression)
  | _ => issue .notTagged

def program (fields : Fields) : Checked Program :=
  both (fun _ body => ⟨body⟩) (typeField "Program" fields)
    (optional "body" [] (listOf statement) fields)

end Target

end Shape

end ParenCall
