import ParenCall.Literal

/-! Programs as they are written: statements over expressions. A statement
wraps an expression or is a literal that stands by itself. -/

namespace ParenCall.Target

structure Identifier where
  name : String
deriving DecidableEq, Repr

inductive Expr where
  | literal (literal : Literal)
  | call (callee : Identifier) (arguments : List Expr)

structure Call where
  callee : Identifier
  arguments : List Expr

def Call.expr (c : Call) : Expr := .call c.callee c.arguments

inductive Statement where
  | expression (expression : Expr)
  | literal (literal : Literal)

structure Program where
  body : List Statement

/-- Any node that may come out of lowering. -/
inductive Node where
  | program (program : Program)
  | statement (expression : Expr)
  | expr (expr : Expr)

namespace Expr

section Fold

variable {α : Type} (literal : Literal → α) (call : Identifier → List α → α)

mutual

/-- A result for every expression, made of its literal or of its callee and of
the results for its arguments. -/
def fold : Expr → α
  | .literal l => literal l
  | .call callee arguments => call callee (folds arguments)

def folds : List Expr → List α
  | [] => []
  | e :: es => fold e :: folds es

end

theorem fold_call (callee : Identifier) (arguments : List Expr) :
    fold literal call (.call callee arguments) =
      call callee (arguments.map (fold literal call)) := by
  have hfolds : ∀ es, folds literal call es = es.map (fold literal call) := by
    intro es
    induction es with
    | nil => rfl
    | cons e es ih => rw [folds, ih, List.map_cons]
  rw [fold, hfolds]

end Fold

mutual

def decEq : (a b : Expr) → Decidable (a = b)
  | .literal l, .literal m =>
    if h : l = m then isTrue (by rw [h]) else isFalse fun he => h (Expr.literal.inj he)
  | .call f xs, .call g ys =>
    if h : f = g then
      match decEqList xs ys with
      | isTrue hx => isTrue (by rw [h, hx])
      | isFalse hx => isFalse fun he => hx (Expr.call.inj he).2
    else isFalse fun he => h (Expr.call.inj he).1
  | .literal _, .call _ _ => isFalse nofun
  | .call _ _, .literal _ => isFalse nofun

def decEqList : (as bs : List Expr) → Decidable (as = bs)
  | [], [] => isTrue rfl
  | a :: as, b :: bs =>
    match decEq a b with
    | isTrue h =>
      match decEqList as bs with
      | isTrue hs => isTrue (by rw [h, hs])
      | isFalse hs => isFalse fun he => hs (List.cons.inj he).2
    | isFalse h => isFalse fun he => h (List.cons.inj he).1
  | [], _ :: _ => isFalse nofun
  | _ :: _, [] => isFalse nofun

end

instance : DecidableEq Expr := decEq

end Expr

deriving instance DecidableEq for Call
deriving instance DecidableEq for Statement
deriving instance DecidableEq for Program
deriving instance DecidableEq for Node

namespace Node

/-- The node as an item of a program's body. -/
def statement? : Node → Option Statement
  | .statement e => some (.expression e)
  | .expr (.literal l) => some (.literal l)
  | .expr (.call _ _) | .program _ => none

/-- The node as an argument of a call. -/
def expr? : Node → Option Expr
  | .expr e => some e
  | .statement _ | .program _ => none

end Node

end ParenCall.Target
