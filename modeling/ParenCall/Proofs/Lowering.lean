import ParenCall.Lowering
import ParenCall.Proofs.Recording

/-! # Lowering a program

Lowering succeeds on every program of the source language: no node of it is of
an unknown kind, and what its nodes become always fits where it stands. What
comes out is given here by recursion on the program, and the hooks are told of
every node of it. A call turns into an expression under another call and into a
statement elsewhere, so the nodes of a body and of a parameter list differ. -/

namespace ParenCall

namespace Source

def Expr.lowered : Expr → Target.Expr :=
  Expr.fold .literal fun name params => .call ⟨name⟩ params

theorem Expr.lowered_call (name : String) (params : List Expr) :
    (Expr.call name params).lowered = .call ⟨name⟩ (params.map Expr.lowered) := Expr.fold_call ..

/-- The item of a lowered body. -/
def Expr.statement : Expr → Target.Statement
  | .literal l => .literal l
  | .call name params => .expression (Expr.call name params).lowered

/-- What a walk makes of an expression, as a parameter of a call or not. -/
def Expr.node (parameter : Bool) : Expr → Target.Node
  | .literal l => .expr (.literal l)
  | .call name params =>
    if parameter then .expr (Expr.call name params).lowered
    else .statement (Expr.call name params).lowered

def Program.lowered (p : Program) : Target.Program := ⟨p.body.map Expr.statement⟩

theorem Expr.tree_ne_absent (e : Expr) : e.tree ≠ .absent := by
  cases e with
  | literal l => nofun
  | call name params => rw [Expr.tree_call]; nofun

theorem Expr.expr?_node (e : Expr) : (e.node true).expr? = some e.lowered := by
  cases e <;> rfl

theorem Expr.statement?_node (e : Expr) : (e.node false).statement? = some e.statement := by
  cases e <;> rfl

end Source

namespace Lowering

open Source (Expr Program)
open Target (Node)

theorem misfits_eq_nil {β : Type} {fit : Node → Option β} {nodes : List Node}
    (h : ∀ n ∈ nodes, (fit n).isSome = true) (i : Nat) : misfits fit i nodes = [] := by
  induction nodes generalizing i with
  | nil => rfl
  | cons n ns ih =>
    rw [misfits, if_pos (h n List.mem_cons_self)]
    exact ih (fun m hm => h m (List.mem_cons_of_mem _ hm)) (i + 1)

theorem place_map {β γ : Type} {fit : Node → Option β} {node : γ → Node} {fitted : γ → β}
    (h : ∀ x, fit (node x) = some (fitted x)) (slot : Slot) (xs : List γ) :
    place slot fit (xs.map node) = .ok (xs.map fitted) := by
  have hfits : ∀ n ∈ xs.map node, (fit n).isSome = true := by
    intro n hn
    obtain ⟨x, _, rfl⟩ := List.mem_map.mp hn
    rw [h x]
    rfl
  have hmap : (xs.map node).filterMap fit = xs.map fitted := by
    rw [List.filterMap_map, show fit ∘ node = some ∘ fitted from funext h, List.filterMap_eq_map]
  rw [place, misfits_eq_nil hfits]
  exact congrArg Except.ok hmap

theorem visit_expr (hooks : Hooks) (e : Expr) (parent : Tree) :
    visitor.visit hooks e.tree parent =
      (Tree.events hooks parent e.tree, .ok (e.node (isParameter parent))) := by
  induction e generalizing parent with
  | literal l => exact Visitor.visit_eq_ok rfl rfl rfl
  | call name params ih =>
    have hparts := Visitor.visitAll_map_eq_ok (fun e _ => Expr.tree_ne_absent e)
      (fun e he => ih e he (.call name (params.map Expr.tree)))
    have hbuild : visitor.build (.call name (params.map Expr.tree)) parent
        (params.map (Expr.node true)) =
          .ok (Expr.node (isParameter parent) (.call name params)) := by
      show Except.map _ (place .arguments Node.expr? (params.map (Expr.node true))) = _
      rw [place_map Expr.expr?_node, Expr.node, Expr.lowered_call]
      rfl
    rw [Tree.events_eq, Expr.tree_call, Tree.children, List.flatMap_map]
    exact Visitor.visit_eq_ok rfl hparts hbuild

/-- Lowering a program succeeds, whatever is recorded and whatever its parent. -/
theorem lower_program_eq (hooks : Hooks) (p : Program) (parent : Tree) :
    lower hooks p.tree parent = (Tree.events hooks parent p.tree, .ok (.program p.lowered)) := by
  have hparts := Visitor.visitAll_map_eq_ok (fun e _ => Expr.tree_ne_absent e)
    (fun e (_ : e ∈ p.body) => visit_expr hooks e p.tree)
  have hbuild : visitor.build p.tree parent (p.body.map (Expr.node false)) =
      .ok (.program p.lowered) := by
    show Except.map _ (place .body Node.statement? (p.body.map (Expr.node false))) = _
    rw [place_map Expr.statement?_node]
    rfl
  rw [lower, Visitor.walk_eq_visit, Tree.events_eq, p.children_tree, List.flatMap_map]
  exact Visitor.visit_eq_ok rfl hparts hbuild

theorem lower_program (hooks : Hooks) (p : Program) (parent : Tree) :
    (lower hooks p.tree parent).2 = .ok (.program p.lowered) := by
  rw [lower_program_eq]

end Lowering

end ParenCall
