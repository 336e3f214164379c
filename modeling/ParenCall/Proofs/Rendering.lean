import ParenCall.Proofs.Traversal
import ParenCall.Rendering

/-! # Rendering a program

Rendering succeeds on every program of the target language, where a statement
always has its expression and a call its callee. The text is given here by
recursion on the program. -/

namespace ParenCall

namespace Target

def Expr.written : Expr → String :=
  Expr.fold Rendering.renderLiteral fun callee arguments =>
    Rendering.renderCall callee.name arguments

theorem Expr.written_call (callee : Identifier) (arguments : List Expr) :
    (Expr.call callee arguments).written =
      Rendering.renderCall callee.name (arguments.map Expr.written) := Expr.fold_call ..

def Statement.written : Statement → String
  | .expression e => e.written ++ ";"
  | .literal l => Rendering.renderLiteral l

def Program.written (p : Program) : String :=
  Rendering.renderBody (p.body.map Statement.written)

theorem Expr.tree_ne_absent (e : Expr) : e.tree ≠ .absent := by
  cases e with
  | literal l => nofun
  | call callee arguments => rw [Expr.tree_call]; nofun

theorem Statement.tree_ne_absent (s : Statement) : s.tree ≠ .absent := by
  cases s <;> simp [Statement.tree]

end Target

namespace Rendering

open Target (Expr Statement Program)

theorem visit_expr (hooks : Hooks) (e : Expr) (parent : Tree) :
    (visitor.visit hooks e.tree parent).2 = .ok e.written := by
  induction e generalizing parent with
  | literal l => rfl
  | call callee arguments ih =>
    rw [Expr.tree_call, Target.Identifier.tree]
    let node : Tree := .apply (.identifier callee.name) (arguments.map Expr.tree)
    have harguments := Visitor.visitAll_map_ok (fun e _ => Expr.tree_ne_absent e)
      (fun e he => ih e he node)
    have hparts : (visitor.visitAll hooks node node.children).2 =
        .ok (callee.name :: arguments.map Expr.written) :=
      Visitor.visitAll_cons_ok (by simp) rfl harguments
    refine Visitor.visit_ok rfl hparts ?_
    rw [Expr.written_call]
    rfl

theorem visit_statement (hooks : Hooks) (s : Statement) (parent : Tree) :
    (visitor.visit hooks s.tree parent).2 = .ok s.written := by
  cases s with
  | literal l => rfl
  | expression e =>
    have hparts : (visitor.visitAll hooks (.statement e.tree) [e.tree]).2 = .ok [e.written] :=
      Visitor.visitAll_cons_ok e.tree_ne_absent (visit_expr hooks e _) rfl
    exact Visitor.visit_ok rfl hparts rfl

theorem render_program (p : Program) : render p.tree = .ok p.written := by
  have hparts := Visitor.visitAll_map_ok (fun s _ => Statement.tree_ne_absent s)
    (fun s (_ : s ∈ p.body) => visit_statement ⟨false, false⟩ s p.tree)
  rw [render, Visitor.walk_eq_visit]
  exact Visitor.visit_ok rfl hparts rfl

end Rendering

end ParenCall
