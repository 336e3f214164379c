import ParenCall.Failure
import ParenCall.Walk

/-! Rendering: the text of a program that is to be written. Statements end in
a semicolon and stand on lines of their own; strings are always written in
double quotes. Nothing is checked beforehand, so a statement or a call may turn
out to have no part to render. -/

namespace ParenCall.Rendering

inductive Fault where
  | unhandled (kind : String)
  | emptyStatement
  | emptyCall
deriving DecidableEq, Repr

def Fault.failure : Fault → Failure
  | .unhandled kind => .raise .rendering .unhandledKind [("kind", .text kind)] none
  | .emptyStatement => .emptyStatement
  | .emptyCall => .emptyCall

def accept : Tree → Except Fault Unit
  | .program .target _ | .literal .target _ | .apply _ _ | .statement _ | .identifier _ => .ok ()
  | t => .error (.unhandled t.kind)

def renderLiteral (l : Literal) : String :=
  match l.kind with
  | .number => l.value
  | .string => "\"" ++ l.value ++ "\""

def renderCall (callee : String) (arguments : List String) : String :=
  callee ++ "(" ++ String.intercalate ", " arguments ++ ")"

def renderBody (items : List String) : String := String.intercalate "\n" items

def build (node _parent : Tree) (parts : List String) : Except Fault String :=
  match node with
  | .program .target _ => .ok (renderBody parts)
  | .statement _ =>
    match parts with
    | [] => .error .emptyStatement
    | part :: _ => .ok (part ++ ";")
  | .apply _ _ =>
    match parts with
    | [] => .error .emptyCall
    | callee :: arguments => .ok (renderCall callee arguments)
  | .identifier name => .ok name
  | .literal .target l => .ok (renderLiteral l)
  | t => .error (.unhandled t.kind)

def visitor : Visitor Fault String := ⟨accept, build⟩

def render (node : Tree) : Except Fault String := (visitor.walk ⟨false, false⟩ node .absent).2

end ParenCall.Rendering
