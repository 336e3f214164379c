import ParenCall.Literal

/-! Programs as they are read: literals and calls, nested to any depth. -/

namespace ParenCall.Source

inductive Expr where
  | literal (literal : Literal)
  | call (name : String) (params : List Expr)

structure Call where
  name : String
  params : List Expr

def Call.expr (c : Call) : Expr := .call c.name c.params

structure Program where
  body : List Expr

namespace Expr

section Fold

variable {α : Type} (literal : Literal → α) (call : String → List α → α)

mutual

/-- A result for every expression, made of its literal or of its name and of the
results for its parameters. -/
def fold : Expr → α
  | .literal l => literal l
  | .call name params => call name (folds params)

def folds : List Expr → List α
  | [] => []
  | e :: es => fold e :: folds es

end

theorem fold_call (name : String) (params : List Expr) :
    fold literal call (.call name params) = call name (params.map (fold literal call)) := by
  have hfolds : ∀ es, folds literal call es = es.map (fold literal call) := by
    intro es
    induction es with
    | nil => rfl
    | cons e es ih => rw [folds, ih, List.map_cons]
  rw [fold, hfolds]

end Fold

mutual

def decEq : (a b : Expr) → Decidable (a = b)
  | .literal l, .literal m =>
    if h : l = m then isTrue (by rw [h]) else isFalse fun he => h (Expr.literal.inj he)
  | .call n ps, .call m qs =>
    if h : n = m then
      match decEqList ps qs with
      | isTrue hp => isTrue (by rw [h, hp])
      | isFalse hp => isFalse fun he => hp (Expr.call.inj he).2
    else isFalse fun he => h (Expr.call.inj he).1
  | .literal _, .call _ _ => isFalse nofun
  | .call _ _, .literal _ => isFalse nofun

def decEqList : (as bs : List Expr) → Decidable (as = bs)
  | [], [] => isTrue rfl
  | a :: as, b :: bs =>
    match decEq a b with
    | isTrue h =>
      match decEqList as bs with
      | isTrue hs => isTrue (by rw [h, hs])
      | isFalse hs => isFalse fun he => hs (List.cons.inj he).2
    | isFalse h => isFalse fun he => h (List.cons.inj he).1
  | [], _ :: _ => isFalse nofun
  | _ :: _, [] => isFalse nofun

end

instance : DecidableEq Expr := decEq

end Expr

deriving instance DecidableEq for Call
deriving instance DecidableEq for Program

end ParenCall.Source
