import Mathlib.Logic.ExistsUnique
import Mathlib.Logic.Function.Defs
import ParenCall.Proofs.Lowering
import ParenCall.Proofs.Nodes

/-! # Lowering loses nothing

A lowered program can be raised again: its statements are unwrapped and its
identifiers become the names of calls. Raising undoes lowering on every program,
and lowering undoes raising on the programs whose statements all wrap calls,
since a wrapped literal would come back bare. Lowering adds an identifier for
each call and a statement for each call of the body, and no other node. -/

namespace ParenCall

/-! ## Raising -/

namespace Target

/-- The expression that is lowered to this one. -/
def Expr.raised : Expr → Source.Expr :=
  Expr.fold .literal fun callee arguments => .call callee.name arguments

theorem Expr.raised_call (callee : Identifier) (arguments : List Expr) :
    (Expr.call callee arguments).raised = .call callee.name (arguments.map Expr.raised) :=
  Expr.fold_call ..

def Statement.raised : Statement → Source.Expr
  | .expression e => e.raised
  | .literal l => .literal l

def Program.raised (p : Program) : Source.Program := ⟨p.body.map Statement.raised⟩

/-- Every statement of the body wraps a call. -/
def Program.WrapsCalls (p : Program) : Prop :=
  ∀ e, .expression e ∈ p.body → ∃ c : Call, e = c.expr

theorem Expr.lowered_raised (e : Expr) : e.raised.lowered = e := by
  induction e with
  | literal l => rfl
  | call callee arguments ih =>
    rw [Expr.raised_call, Source.Expr.lowered_call, List.map_map]
    congr 1
    exact (List.map_congr_left ih).trans (List.map_id _)

theorem Statement.statement_raised {s : Statement}
    (h : ∀ e, s = .expression e → ∃ c : Call, e = c.expr) : s.raised.statement = s := by
  cases s with
  | literal l => rfl
  | expression e =>
    obtain ⟨c, rfl⟩ := h e rfl
    exact congrArg Statement.expression (Expr.lowered_raised c.expr)

theorem Program.lowered_raised {p : Program} (h : p.WrapsCalls) : p.raised.lowered = p := by
  have hbody : (p.body.map Statement.raised).map Source.Expr.statement = p.body := by
    rw [List.map_map]
    refine (List.map_congr_left fun s hs => ?_).trans (List.map_id _)
    exact Statement.statement_raised fun e he => h e (he ▸ hs)
  exact congrArg Program.mk hbody

end Target

namespace Source

theorem Expr.raised_lowered (e : Expr) : e.lowered.raised = e := by
  induction e with
  | literal l => rfl
  | call name params ih =>
    rw [Expr.lowered_call, Target.Expr.raised_call, List.map_map]
    congr 1
    exact (List.map_congr_left ih).trans (List.map_id _)

theorem Expr.raised_statement (e : Expr) : e.statement.raised = e := by
  cases e with
  | literal l => rfl
  | call name params => exact Expr.raised_lowered _

theorem Program.raised_lowered (p : Program) : p.lowered.raised = p := by
  have hbody : (p.body.map Expr.statement).map Target.Statement.raised = p.body := by
    rw [List.map_map]
    exact (List.map_congr_left fun e _ => e.raised_statement).trans (List.map_id _)
  exact congrArg Program.mk hbody

theorem Program.wrapsCalls_lowered (p : Program) : p.lowered.WrapsCalls := by
  intro e he
  obtain ⟨d, _, hd⟩ := List.mem_map.mp he
  cases d with
  | literal l => cases hd
  | call name params => exact ⟨⟨_, _⟩, (Target.Statement.expression.inj hd).symm⟩

end Source

/-! ## The nodes of a lowered program -/

namespace Tree

def isIdentifier : Tree → Bool
  | .identifier _ => true
  | _ => false

def isStatement : Tree → Bool
  | .statement _ => true
  | _ => false

end Tree

namespace Source

open ParenCall.Tree (isLiteral isCall isIdentifier isStatement)

theorem Expr.nodes_lowered_call (name : String) (params : List Expr) :
    (Expr.call name params).lowered.tree.nodes =
      (Expr.call name params).lowered.tree :: .identifier name ::
        params.flatMap fun e => e.lowered.tree.nodes := by
  have hchildren : (Expr.call name params).lowered.tree.children =
      .identifier name :: (params.map Expr.lowered).map Target.Expr.tree := by
    rw [Expr.lowered_call, Target.Expr.tree_call]
    rfl
  rw [Tree.nodes_eq, hchildren, List.flatMap_cons, List.map_map, List.flatMap_map]
  rfl

/-- An item of a lowered body has the nodes of the expression that it holds, and
one more if that is a call. -/
theorem Expr.nodes_statement (e : Expr) :
    e.statement.tree.nodes =
      (if isCall e.tree then [e.statement.tree] else []) ++ e.lowered.tree.nodes := by
  cases e with
  | literal l => rfl
  | call name params =>
    rw [Tree.nodes_eq]
    exact congrArg _ (List.append_nil _)

theorem Program.nodes_lowered (p : Program) :
    p.lowered.tree.nodes = p.lowered.tree :: p.body.flatMap fun e => e.statement.tree.nodes := by
  have hchildren : p.lowered.tree.children =
      p.body.map fun e => e.statement.tree := List.map_map
  rw [Tree.nodes_eq, hchildren, List.flatMap_map]

/-- Identifiers stand for calls, one for each and in the same order. -/
theorem Expr.identifiers_lowered (e : Expr) :
    (e.lowered.tree.nodes.filter isIdentifier).map Tree.text? =
      (e.tree.nodes.filter isCall).map Tree.text? := by
  induction e with
  | literal l => rfl
  | call name params ih =>
    rw [Expr.nodes_lowered_call, Expr.nodes_call, List.filter_cons_of_neg Bool.false_ne_true,
      List.filter_cons_of_pos rfl, List.filter_cons_of_pos rfl, List.map_cons, List.map_cons,
      List.filter_flatMap, List.filter_flatMap, List.map_flatMap, List.map_flatMap]
    exact congrArg _ (List.flatMap_congr ih)

theorem Program.identifiers_lowered (p : Program) :
    (p.lowered.tree.nodes.filter isIdentifier).map Tree.text? =
      (p.tree.nodes.filter isCall).map Tree.text? := by
  rw [p.nodes_lowered, p.nodes_eq, List.filter_cons_of_neg Bool.false_ne_true,
    List.filter_cons_of_neg Bool.false_ne_true, List.filter_flatMap, List.filter_flatMap,
    List.map_flatMap, List.map_flatMap]
  refine List.flatMap_congr fun e _ => ?_
  rw [Expr.nodes_statement, List.filter_append, ← e.identifiers_lowered]
  cases e <;> rfl

theorem Expr.filter_isStatement_lowered (e : Expr) :
    e.lowered.tree.nodes.filter isStatement = [] := by
  induction e with
  | literal l => rfl
  | call name params ih =>
    rw [Expr.nodes_lowered_call, List.filter_cons_of_neg Bool.false_ne_true,
      List.filter_cons_of_neg Bool.false_ne_true, List.filter_flatMap]
    exact List.flatMap_eq_nil_iff.mpr ih

/-- Statements stand in the body and nowhere below. -/
theorem Program.filter_isStatement_lowered (p : Program) :
    p.lowered.tree.nodes.filter isStatement = p.lowered.tree.children.filter isStatement := by
  have hchildren : p.lowered.tree.children = p.body.flatMap fun e => [e.statement.tree] :=
    List.map_map.trans List.map_eq_flatMap
  rw [p.nodes_lowered, hchildren, List.filter_cons_of_neg Bool.false_ne_true, List.filter_flatMap,
    List.filter_flatMap]
  refine List.flatMap_congr fun e _ => ?_
  rw [Expr.nodes_statement, List.filter_append, e.filter_isStatement_lowered, List.append_nil]
  cases e <;> rfl

theorem Program.map_isStatement_lowered (p : Program) :
    p.lowered.tree.children.map isStatement = p.tree.children.map isCall := by
  show ((p.body.map Expr.statement).map Target.Statement.tree).map isStatement =
    (p.body.map Expr.tree).map isCall
  rw [List.map_map, List.map_map, List.map_map]
  refine List.map_congr_left fun e _ => ?_
  cases e <;> rfl

theorem Expr.length_statements (es : List Expr) :
    (es.flatMap fun e => e.statement.tree.nodes).length =
      (es.map Expr.tree).countP isCall + (es.flatMap fun e => e.lowered.tree.nodes).length := by
  induction es with
  | nil => rfl
  | cons e es ih =>
    rw [List.flatMap_cons, List.length_append, ih, Expr.nodes_statement, List.length_append,
      List.map_cons, List.countP_cons, List.flatMap_cons, List.length_append]
    split <;> simp only [List.length_nil, List.length_singleton] <;> omega

theorem Program.length_lowered (p : Program) :
    p.lowered.tree.nodes.length =
      p.tree.nodes.length + p.tree.nodes.countP isCall + p.tree.children.countP isCall := by
  have hliteral (l : Literal) : (Expr.literal l).lowered.tree.nodes.length = 1 := rfl
  have hcall (name : String) (params : List Expr) :
      (Expr.call name params).lowered.tree.nodes.length =
        2 + (params.flatMap fun e => e.lowered.tree.nodes).length := by
    rw [Expr.nodes_lowered_call, List.length_cons, List.length_cons]
    omega
  have hbody := p.length_flatMap_eq (fun e => e.lowered.tree.nodes) hliteral hcall
  have hitems : p.lowered.tree.nodes.length = p.tree.children.countP isCall +
      (p.body.flatMap fun e => e.lowered.tree.nodes).length + 1 := by
    rw [p.nodes_lowered, List.length_cons, Expr.length_statements]
    rfl
  rw [hitems, p.length_nodes, hbody]
  omega

end Source

/-! ## The two languages -/

namespace Lowering

theorem lower_eq_program_iff {hooks : Hooks} {parent : Tree} {p : Source.Program}
    {t : Target.Program} :
    (lower hooks p.tree parent).2 = .ok (.program t) ↔ p.lowered = t := by
  rw [lower_program]
  constructor
  · intro h
    exact Target.Node.program.inj (Except.ok.inj h)
  · intro h
    rw [h]

open ParenCall.Tree (isCall isIdentifier isStatement)

/-- Lowering matches the programs of the source one to one with the programs of
the target whose statements all wrap calls. It adds an identifier for each call
and a statement around each call of the body. -/
theorem lower_one_to_one (hooks : Hooks) (parent : Tree) :
    (Function.Injective fun p : Source.Program => (lower hooks p.tree parent).2) ∧
    (∀ t : Target.Program,
      t.WrapsCalls ↔ ∃! p : Source.Program, (lower hooks p.tree parent).2 = .ok (.program t)) ∧
    ∀ p : Source.Program, ∃ t : Target.Program,
      (lower hooks p.tree parent).2 = .ok (.program t) ∧ t.WrapsCalls ∧
      t.tree.nodes.length =
        p.tree.nodes.length + p.tree.nodes.countP isCall + p.tree.children.countP isCall ∧
      (t.tree.nodes.filter isIdentifier).map Tree.text? =
        (p.tree.nodes.filter isCall).map Tree.text? ∧
      t.tree.nodes.filter isStatement = t.tree.children.filter isStatement ∧
      t.tree.children.map isStatement = p.tree.children.map isCall := by
  have hinjective {p q : Source.Program} (h : p.lowered = q.lowered) : p = q := by
    rw [← p.raised_lowered, h, q.raised_lowered]
  refine ⟨?_, ?_, ?_⟩
  · intro p q h
    refine hinjective (lower_eq_program_iff.mp (h.trans ?_))
    exact lower_program hooks q parent
  · intro t
    simp only [lower_eq_program_iff]
    constructor
    · intro hcalls
      refine ⟨t.raised, Target.Program.lowered_raised hcalls, fun p hp => ?_⟩
      rw [← hp, p.raised_lowered]
    · rintro ⟨p, rfl, _⟩
      exact p.wrapsCalls_lowered
  · intro p
    exact ⟨p.lowered, lower_program hooks p parent, p.wrapsCalls_lowered, p.length_lowered,
      p.identifiers_lowered, p.filter_isStatement_lowered, p.map_isStatement_lowered⟩

/-- A statement around nested calls comes from one program, and a statement
around a literal from none. -/
theorem lower_one_to_one_wrapped :
    let nested : Target.Program :=
      ⟨[.expression (.call ⟨"f"⟩ [.call ⟨"g"⟩ [], .literal ⟨.number, "1"⟩]),
        .literal ⟨.number, "2"⟩]⟩
    let bare : Target.Program := ⟨[.expression (.literal ⟨.number, "1"⟩)]⟩
    (nested.WrapsCalls ∧
      ∃! p : Source.Program, (lower ⟨true, true⟩ p.tree).2 = .ok (.program nested)) ∧
    ¬ bare.WrapsCalls ∧
      ¬ ∃! p : Source.Program, (lower ⟨true, true⟩ p.tree).2 = .ok (.program bare) := by
  intro nested bare
  have hnested : nested.WrapsCalls := by
    intro e he
    simp only [nested, List.mem_cons, Target.Statement.expression.injEq, reduceCtorEq,
      List.not_mem_nil, or_false] at he
    exact ⟨⟨_, _⟩, he⟩
  have hbare : ¬ bare.WrapsCalls := by
    intro h
    obtain ⟨c, hc⟩ := h _ List.mem_cons_self
    cases hc
  have hone := (lower_one_to_one ⟨true, true⟩ .absent).2.1
  exact ⟨⟨hnested, (hone nested).mp hnested⟩, hbare, fun h => hbare ((hone bare).mpr h)⟩

end Lowering

end ParenCall
