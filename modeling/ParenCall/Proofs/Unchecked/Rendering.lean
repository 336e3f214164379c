import ParenCall.Proofs.Recording
import ParenCall.Proofs.Rendering
import ParenCall.Proofs.Report

/-! # Rendering any tree

The text of a tree that nobody has checked, by recursion on the tree. A node of
an unknown kind is refused before anything below it is rendered, and a statement
or a call that turns out to have no part only after that. -/

namespace ParenCall

namespace Rendering

/-- The text of a child and those of its later siblings, none if it is absent. -/
def childFirst (child : Tree) (first : Except Failure String)
    (rest : Except Failure (List String)) : Except Failure (List String) :=
  match child with
  | .absent => .ok []
  | _ => first.bind fun part => rest.map (part :: ·)

mutual

/-- The text of any node, by recursion. -/
def text : Tree → Except Failure String
  | .program .target body => (texts body).map (String.intercalate "\n")
  | .statement expression =>
    (childFirst expression (text expression) (.ok [])).bind fun
      | [] => .error .emptyStatement
      | part :: _ => .ok (part ++ ";")
  | .apply callee arguments =>
    (childFirst callee (text callee) (texts arguments)).bind fun
      | [] => .error .emptyCall
      | part :: parts => .ok (part ++ "(" ++ String.intercalate ", " parts ++ ")")
  | .identifier name => .ok name
  | .literal .target ⟨.number, value⟩ => .ok value
  | .literal .target ⟨.string, value⟩ => .ok ("\"" ++ value ++ "\"")
  | t => .error (.unknownKind .rendering t.label)

/-- The texts of the children in order, up to the first absent one or the first
failure. -/
def texts : List Tree → Except Failure (List String)
  | [] => .ok []
  | child :: rest => childFirst child (text child) (texts rest)

end

theorem mapError_bind {α β : Type} (x : Except Fault α) (f : α → Except Fault β) :
    (x.bind f).mapError Fault.failure =
      (x.mapError Fault.failure).bind fun a => (f a).mapError Fault.failure := by
  cases x <;> rfl

theorem visitAll_eq_texts {hooks : Hooks} {children : List Tree}
    (h : ∀ child ∈ children, ∀ parent,
      (visitor.visit hooks child parent).2.mapError Fault.failure = text child) (parent : Tree) :
    (visitor.visitAll hooks parent children).2.mapError Fault.failure = texts children := by
  induction children with
  | nil => rfl
  | cons child rest ih =>
    have hrest := ih fun c hc => h c (List.mem_cons_of_mem _ hc)
    by_cases hc : child = .absent
    · subst hc
      rfl
    · have hfirst := h child List.mem_cons_self parent
      have hpresent : texts (child :: rest) =
          (text child).bind fun part => (texts rest).map (part :: ·) := by
        rw [texts, childFirst]
        exact hc
      rw [hpresent, ← hfirst, ← hrest, Visitor.visitAll_cons hc]
      rcases visitor.visit hooks child parent with ⟨_, e | part⟩
      · rfl
      · rcases visitor.visitAll hooks parent rest with ⟨_, e | parts⟩ <;> rfl

theorem visit_refused {node : Tree} (h : accept node = .error (.unhandled node.kind))
    (hooks : Hooks) (parent : Tree) :
    (visitor.visit hooks node parent).2.mapError Fault.failure =
      .error (.unknownKind .rendering node.label) := by
  rw [Visitor.visit_result, show visitor.accept node = _ from h, ← node.kind_eq_label,
    ← Failure.raise_unhandledKind]
  rfl

theorem visit_taken {hooks : Hooks} {node : Tree} (haccept : accept node = .ok ())
    (h : ∀ child ∈ node.children, ∀ parent,
      (visitor.visit hooks child parent).2.mapError Fault.failure = text child) (parent : Tree) :
    (visitor.visit hooks node parent).2.mapError Fault.failure =
      (texts node.children).bind fun parts =>
        (build node parent parts).mapError Fault.failure := by
  rw [Visitor.visit_result, show visitor.accept node = _ from haccept, ← visitAll_eq_texts h node]
  exact mapError_bind (visitor.visitAll hooks node node.children).2 (build node parent)

theorem visit_eq_text (hooks : Hooks) (node parent : Tree) :
    (visitor.visit hooks node parent).2.mapError Fault.failure = text node := by
  induction node using Tree.induction generalizing parent with
  | node node ih =>
    cases node with
    | absent => exact visit_refused rfl hooks parent
    | foreign kind => exact visit_refused rfl hooks parent
    | call name params => exact visit_refused rfl hooks parent
    | identifier name => rfl
    | literal language l =>
      cases language with
      | source => exact visit_refused rfl hooks parent
      | target =>
        obtain ⟨kind, value⟩ := l
        cases kind <;> rfl
    | program language body =>
      cases language with
      | source => exact visit_refused rfl hooks parent
      | target =>
        rw [visit_taken rfl ih, text]
        rfl
    | statement expression =>
      -- the recursion takes the first child by itself, and `texts` does the same in one step
      rw [visit_taken rfl ih, text, Tree.children, texts]
      congr 1
      funext parts
      cases parts <;> rfl
    | apply callee arguments =>
      rw [visit_taken rfl ih, text, Tree.children, texts]
      congr 1
      funext parts
      cases parts <;> rfl

/-- Rendering with a stack of its own is the recursion, on every tree. -/
theorem render_eq_text (node : Tree) : (render node).mapError Fault.failure = text node := by
  rw [render, Visitor.walk_eq_visit]
  exact visit_eq_text ⟨false, false⟩ node .absent

end Rendering

end ParenCall
