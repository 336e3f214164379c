import ParenCall.Proofs.Traversal

/-! # What is recorded of a tree

Reports, logs and events call a node by what it is and tell its own text, and
events tell what its parent is too. These names are spelled out here, apart from
the walk that uses them, and with them the event of every node under its parent.
A walk that gets through a tree records all of its nodes. -/

namespace ParenCall

namespace Tree

/-- What a node is called. -/
def label : Tree → String
  | .absent => "NoneType"
  | .foreign kind => kind
  | .program _ _ => "Program"
  | .literal _ ⟨.number, _⟩ => "NumberLiteral"
  | .literal _ ⟨.string, _⟩ => "StringLiteral"
  | .call _ _ => "CallExpression"
  | .apply _ _ => "CallExpression"
  | .statement _ => "ExpressionStatement"
  | .identifier _ => "Identifier"

/-- What a parent is called, if there is one. -/
def label? : Tree → Option String
  | .absent => none
  | parent => some parent.label

/-- What a literal, a call or an identifier says itself. -/
def ownText? : Tree → Option String
  | .literal _ ⟨_, value⟩ => some value
  | .call name _ => some name
  | .identifier name => some name
  | .absent | .foreign _ | .program _ _ | .apply _ _ | .statement _ => none

theorem kind_eq_label (t : Tree) : t.kind = t.label := by
  cases t with
  | literal language l =>
    obtain ⟨kind, value⟩ := l
    cases kind <;> rfl
  | _ => rfl

theorem kind?_eq_label? (t : Tree) : t.kind? = t.label? := by
  cases t with
  | absent => rfl
  | _ => exact congrArg some (kind_eq_label _)

theorem text?_eq_ownText? (t : Tree) : t.text? = t.ownText? := by
  cases t <;> rfl

end Tree

/-- The event of a node with its parent. -/
def Event.ofNode (phase : Phase) (x : Tree × Tree) : Event :=
  ⟨phase, x.1.label, x.1.ownText?, x.2.label?⟩

namespace Hooks

theorem record_eq (hooks : Hooks) (phase : Phase) (node parent : Tree) :
    hooks.record phase node parent =
      if hooks.wants phase then [Event.ofNode phase (node, parent)] else [] := by
  rw [record, node.kind_eq_label, node.text?_eq_ownText?, parent.kind?_eq_label?]
  rfl

theorem record_enter (hooks : Hooks) (node parent : Tree) :
    hooks.record .enter node parent =
      if hooks.enter then [Event.ofNode .enter (node, parent)] else [] := hooks.record_eq ..

theorem record_exit (hooks : Hooks) (node parent : Tree) :
    hooks.record .exit node parent =
      if hooks.exit then [Event.ofNode .exit (node, parent)] else [] := hooks.record_eq ..

end Hooks

namespace Tree

/-- What the hooks are told of a tree all of whose nodes are visited. -/
def events (hooks : Hooks) (parent t : Tree) : List Event :=
  t.fold (fun node below parent =>
    Visitor.recordAround hooks node parent (below.flatMap fun part => part node)) parent

theorem events_eq (hooks : Hooks) (parent t : Tree) :
    events hooks parent t =
      Visitor.recordAround hooks t parent (t.children.flatMap (events hooks t)) := by
  rw [events, fold_eq, List.flatMap_map]
  rfl

theorem recordAround_both (node parent : Tree) (inside : List Event) :
    Visitor.recordAround ⟨true, true⟩ node parent inside =
      Event.ofNode .enter (node, parent) :: (inside ++ [Event.ofNode .exit (node, parent)]) := by
  rw [Visitor.recordAround, Hooks.record_enter, Hooks.record_exit]
  rfl

theorem recordAround_entering (node parent : Tree) (inside : List Event) :
    Visitor.recordAround ⟨true, false⟩ node parent inside =
      Event.ofNode .enter (node, parent) :: inside := by
  rw [Visitor.recordAround, Hooks.record_enter, Hooks.record_exit]
  exact congrArg _ (List.append_nil inside)

theorem recordAround_exiting (node parent : Tree) (inside : List Event) :
    Visitor.recordAround ⟨false, true⟩ node parent inside =
      inside ++ [Event.ofNode .exit (node, parent)] := by
  rw [Visitor.recordAround, Hooks.record_enter, Hooks.record_exit]
  rfl

end Tree

end ParenCall
