import ParenCall.Failure
import ParenCall.Options
import ParenCall.Shape.Node

/-! Everything that has a shape, written out as plain data with all its fields.
What nests deeper than its check allows is not written out. -/

namespace ParenCall

open Shape (node maxNesting)

def Token.dump (t : Token) : Value :=
  .object [("kind", .text t.kind.label), ("text", .text t.text), ("offset", .int t.offset)]

def Options.dump (o : Options) : Value :=
  .object [("verbose", .bool o.verbose), ("allow_any_callee", .bool o.anyCallee)]

def Literal.dump (l : Literal) : Value := node l.kind.label [("value", .text l.value)]

abbrev Dumped := Except Failure Value

namespace Shape.Dialect

variable {η α : Type}

def node (s : Dialect η α) (head : η) (parts : List Value) : Value :=
  Shape.node "CallExpression" [(s.headField, s.dumpHead head), (s.partsField, .list parts)]

/-- A call, given how its parts are dumped when there is so much room for them. -/
def dumpCall (s : Dialect η α) (head : η) (parts : List (Nat → Dumped)) : Nat → Dumped
  | 0 => .error .tooDeep
  | room + 1 => (parts.mapM fun (part : Nat → Dumped) => part room).map (s.node head)

end Shape.Dialect

namespace Source

/-- An expression with at most so many calls inside one another. -/
def Expr.dump : Expr → Nat → Dumped :=
  Expr.fold (fun l _ => .ok l.dump) Shape.Source.dialect.dumpCall

/-- The call itself is not below a record. -/
def Call.dump (c : Call) : Dumped := c.expr.dump (maxNesting + 1)

def Program.dump (p : Program) : Dumped :=
  (p.body.mapM fun (e : Expr) => e.dump maxNesting).map fun body =>
    node "Program" [("body", .list body)]

end Source

namespace Target

def Expr.dump : Expr → Nat → Dumped :=
  Expr.fold (fun l _ => .ok l.dump) Shape.Target.dialect.dumpCall

def Call.dump (c : Call) : Dumped := c.expr.dump (maxNesting + 1)

def wrappedDump (e : Expr) : Dumped :=
  (e.dump maxNesting).map fun v => node "ExpressionStatement" [("expression", v)]

def Statement.dump : Statement → Dumped
  | .expression e => wrappedDump e
  | .literal l => .ok l.dump

def Program.dump (p : Program) : Dumped :=
  (p.body.mapM Statement.dump).map fun body => node "Program" [("body", .list body)]

def Node.dump : Node → Dumped
  | .program p => p.dump
  | .statement e => wrappedDump e
  | .expr e => e.dump (maxNesting + 1)

end Target

end ParenCall
