import ParenCall.Source
import ParenCall.Target

/-! Trees nobody has checked. A tree may mix nodes of the two languages, hold
things that are no node at all, or have nothing where a node should be. The
programs of both languages are trees, and walks over trees are what lowering
and rendering are made of. -/

namespace ParenCall

inductive Language where
  | source
  | target
deriving DecidableEq, Repr

inductive Tree where
  | absent
  /-- Something that is no node; only what it calls itself is known. -/
  | foreign (kind : String)
  | program (language : Language) (body : List Tree)
  | literal (language : Language) (literal : Literal)
  | call (name : String) (params : List Tree)
  | apply (callee : Tree) (arguments : List Tree)
  | statement (expression : Tree)
  | identifier (name : String)
deriving Inhabited

namespace Tree

def kind : Tree → String
  | .absent => "NoneType"
  | .foreign kind => kind
  | .program _ _ => "Program"
  | .literal _ l => l.kind.label
  | .call _ _ | .apply _ _ => "CallExpression"
  | .statement _ => "ExpressionStatement"
  | .identifier _ => "Identifier"

def kind? : Tree → Option String
  | .absent => none
  | t => some t.kind

/-- The name or value a node carries itself. -/
def text? : Tree → Option String
  | .literal _ l => some l.value
  | .call name _ | .identifier name => some name
  | _ => none

def children : Tree → List Tree
  | .program _ body => body
  | .call _ params => params
  | .apply callee arguments => callee :: arguments
  | .statement expression => [expression]
  | .absent | .foreign _ | .literal _ _ | .identifier _ => []

mutual

/-- A result for every node, made of the node and of the results for its
children. -/
def fold {β : Type} (f : Tree → List β → β) : Tree → β
  | .program language body => f (.program language body) (folds f body)
  | .call name params => f (.call name params) (folds f params)
  | .apply callee arguments => f (.apply callee arguments) (fold f callee :: folds f arguments)
  | .statement expression => f (.statement expression) [fold f expression]
  | .absent => f .absent []
  | .foreign kind => f (.foreign kind) []
  | .literal language l => f (.literal language l) []
  | .identifier name => f (.identifier name) []

def folds {β : Type} (f : Tree → List β → β) : List Tree → List β
  | [] => []
  | t :: ts => fold f t :: folds f ts

end

theorem fold_eq {β : Type} (f : Tree → List β → β) (t : Tree) :
    fold f t = f t (t.children.map (fold f)) := by
  have hfolds : ∀ ts, folds f ts = ts.map (fold f) := by
    intro ts
    induction ts with
    | nil => rfl
    | cons t ts ih => rw [folds, ih, List.map_cons]
  cases t <;> simp [fold, hfolds, children]

/-- Twice the number of nodes, which is how many steps a walk can take. -/
def weight : Tree → Nat := fold fun _ below => 2 + below.foldr (· + ·) 0

def weights (ts : List Tree) : Nat := (ts.map weight).foldr (· + ·) 0

theorem weights_cons (t : Tree) (ts : List Tree) : weights (t :: ts) = t.weight + weights ts := rfl

theorem weight_eq (t : Tree) : t.weight = 2 + weights t.children := fold_eq ..

end Tree

namespace Source

def Expr.tree : Expr → Tree := Expr.fold (.literal .source) .call

theorem Expr.tree_call (name : String) (params : List Expr) :
    (Expr.call name params).tree = .call name (params.map Expr.tree) := Expr.fold_call ..

def Program.tree (p : Program) : Tree := .program .source (p.body.map Expr.tree)

theorem Program.children_tree (p : Program) : p.tree.children = p.body.map Expr.tree := rfl

end Source

namespace Target

def Identifier.tree (i : Identifier) : Tree := .identifier i.name

def Expr.tree : Expr → Tree :=
  Expr.fold (.literal .target) fun callee arguments => .apply callee.tree arguments

theorem Expr.tree_call (callee : Identifier) (arguments : List Expr) :
    (Expr.call callee arguments).tree = .apply callee.tree (arguments.map Expr.tree) :=
  Expr.fold_call ..

def Statement.tree : Statement → Tree
  | .expression e => .statement e.tree
  | .literal l => .literal .target l

def Program.tree (p : Program) : Tree := .program .target (p.body.map Statement.tree)

def Node.tree : Node → Tree
  | .program p => p.tree
  | .statement e => .statement e.tree
  | .expr e => e.tree

end Target

end ParenCall
