import ParenCall.Proofs.Grammar

/-! # The nodes of a tree

All nodes of a tree with their parents, a parent before its children and
children in order. Counts of nodes of one sort or another are taken from this
list. A program takes as many tokens as it has literals, and three more for each
call: its two parentheses and its callee. -/

namespace ParenCall

namespace Tree

/-- The nodes of a tree, each with its parent. -/
def family (parent t : Tree) : List (Tree × Tree) :=
  t.fold (fun node (below : List (Tree → List (Tree × Tree))) parent =>
    (node, parent) :: below.flatMap fun part => part node) parent

theorem family_eq (parent t : Tree) :
    family parent t = (t, parent) :: t.children.flatMap (family t) := by
  rw [family, fold_eq, List.flatMap_map]
  rfl

def nodes (t : Tree) : List Tree := (family .absent t).map Prod.fst

theorem map_fst_family (parent t : Tree) : (family parent t).map Prod.fst = t.nodes := by
  rw [nodes, family_eq, family_eq .absent]
  rfl

theorem nodes_eq (t : Tree) : t.nodes = t :: t.children.flatMap nodes := by
  rw [nodes, family_eq, List.map_cons, List.map_flatMap]
  simp only [map_fst_family]

def isLiteral : Tree → Bool
  | .literal _ _ => true
  | _ => false

def isCall : Tree → Bool
  | .call _ _ => true
  | _ => false

end Tree

namespace Source

open ParenCall.Tree (isLiteral isCall)

theorem Expr.nodes_call (name : String) (params : List Expr) :
    (Expr.call name params).tree.nodes =
      (Expr.call name params).tree :: params.flatMap fun e => e.tree.nodes := by
  rw [Tree.nodes_eq, Expr.tree_call]
  exact congrArg _ (List.flatMap_map ..)

theorem Program.nodes_eq (p : Program) :
    p.tree.nodes = p.tree :: p.body.flatMap fun e => e.tree.nodes := by
  rw [Tree.nodes_eq]
  exact congrArg _ (List.flatMap_map ..)

/-! ## Lengths

A list that grows by `a` with every literal and by `b` with every call has a
length that depends on the number of literals and calls alone. -/

section Length

variable {β : Type} {g : Expr → List β} {a b : Nat}

theorem Expr.length_flatMap_eq {es : List Expr}
    (h : ∀ e ∈ es,
      (g e).length = a * e.tree.nodes.countP isLiteral + b * e.tree.nodes.countP isCall) :
    (es.flatMap g).length =
      a * (es.flatMap fun e => e.tree.nodes).countP isLiteral +
        b * (es.flatMap fun e => e.tree.nodes).countP isCall := by
  induction es with
  | nil => rfl
  | cons e es ih =>
    have hfirst := h e List.mem_cons_self
    have hrest := ih fun d hd => h d (List.mem_cons_of_mem _ hd)
    simp only [List.flatMap_cons, List.length_append, List.countP_append, Nat.mul_add]
    omega

theorem Expr.length_eq (hliteral : ∀ l, (g (.literal l)).length = a)
    (hcall : ∀ name params, (g (.call name params)).length = b + (params.flatMap g).length)
    (e : Expr) :
    (g e).length = a * e.tree.nodes.countP isLiteral + b * e.tree.nodes.countP isCall := by
  induction e with
  | literal l =>
    show (g (.literal l)).length = a * 1 + b * 0
    rw [hliteral, Nat.mul_one, Nat.mul_zero, Nat.add_zero]
  | call name params ih =>
    rw [hcall, Expr.length_flatMap_eq ih, Expr.nodes_call,
      List.countP_cons_of_neg Bool.false_ne_true, List.countP_cons_of_pos rfl, Nat.mul_add_one]
    omega

theorem Program.length_flatMap_eq (g : Expr → List β)
    (hliteral : ∀ l, (g (.literal l)).length = a)
    (hcall : ∀ name params, (g (.call name params)).length = b + (params.flatMap g).length)
    (p : Program) :
    (p.body.flatMap g).length =
      a * p.tree.nodes.countP isLiteral + b * p.tree.nodes.countP isCall := by
  rw [p.nodes_eq, List.countP_cons_of_neg Bool.false_ne_true,
    List.countP_cons_of_neg Bool.false_ne_true]
  exact Expr.length_flatMap_eq fun e _ => e.length_eq hliteral hcall

end Length

/-- Below its root a program has literals and calls only. -/
theorem Program.length_nodes (p : Program) :
    p.tree.nodes.length = p.tree.nodes.countP isLiteral + p.tree.nodes.countP isCall + 1 := by
  have hliteral (l : Literal) : (Expr.literal l).tree.nodes.length = 1 := rfl
  have hcall (name : String) (params : List Expr) : (Expr.call name params).tree.nodes.length =
      1 + (params.flatMap fun e => e.tree.nodes).length := by
    rw [Expr.nodes_call, List.length_cons, Nat.add_comm]
  have hbody := p.length_flatMap_eq (fun e => e.tree.nodes) hliteral hcall
  rw [Nat.one_mul, Nat.one_mul] at hbody
  rw [← hbody, p.nodes_eq, List.length_cons]

theorem Program.length_slots (p : Program) :
    p.slots.length = p.tree.nodes.countP isLiteral + 3 * p.tree.nodes.countP isCall := by
  have hliteral (l : Literal) : (Expr.literal l).slots.length = 1 := rfl
  have hcall (name : String) (params : List Expr) : (Expr.call name params).slots.length =
      3 + (params.flatMap Expr.slots).length := by
    simp only [Expr.slots_call, List.length_cons, List.length_append, List.length_nil]
    omega
  have hbody := p.length_flatMap_eq Expr.slots hliteral hcall
  rw [Nat.one_mul] at hbody
  rw [← hbody, Program.slots]

theorem length_of_parse {rule : CalleeRule} {ts : List Token} {p : Program}
    (h : parse rule ts = .ok p) :
    ts.length = p.tree.nodes.countP isLiteral + 3 * p.tree.nodes.countP isCall := by
  rw [← (parse_sound h).length_eq, p.length_slots]

end Source

end ParenCall
