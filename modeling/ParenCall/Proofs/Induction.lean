import ParenCall.Tree

/-! # Induction over nested syntax

Expressions and trees hold lists of themselves. Each of these principles gives
the induction hypothesis for every member of such a list. -/

namespace ParenCall

@[induction_eliminator]
theorem Source.Expr.induction {motive : Source.Expr → Prop}
    (literal : ∀ l, motive (.literal l))
    (call : ∀ name params, (∀ e ∈ params, motive e) → motive (.call name params)) :
    ∀ e, motive e
  | .literal l => literal l
  | .call name params => call name params fun e _ => induction literal call e

@[induction_eliminator]
theorem Target.Expr.induction {motive : Target.Expr → Prop}
    (literal : ∀ l, motive (.literal l))
    (call : ∀ callee arguments, (∀ e ∈ arguments, motive e) → motive (.call callee arguments)) :
    ∀ e, motive e
  | .literal l => literal l
  | .call callee arguments => call callee arguments fun e _ => induction literal call e

namespace Tree

theorem weight_le_of_mem {t : Tree} {ts : List Tree} (h : t ∈ ts) : t.weight ≤ weights ts := by
  induction ts with
  | nil => contradiction
  | cons u us ih =>
    rw [weights_cons]
    cases h with
    | head => omega
    | tail _ h =>
      have := ih h
      omega

theorem induction {motive : Tree → Prop}
    (node : ∀ t : Tree, (∀ c ∈ t.children, motive c) → motive t) (t : Tree) : motive t :=
  node t fun c _ => induction node c
termination_by t.weight
decreasing_by
  have hc : c.weight ≤ weights t.children := weight_le_of_mem ‹_›
  rw [t.weight_eq]
  omega

end Tree

end ParenCall
