import ParenCall.Tree

/-! Walks over trees, parents before children and children in order. A walk
keeps its own stack of open nodes. A visitor says which nodes it takes and what
it makes of a node once its children are done; the first refusal ends the walk.
Children after an absent one are not visited.

A hook is told of each node as it is entered or left. A node that is refused is
not entered, and one of which nothing can be made is not left. -/

namespace ParenCall

inductive Phase where
  | enter
  | exit
deriving DecidableEq, Repr

structure Event where
  phase : Phase
  kind : String
  text : Option String
  parent : Option String
deriving DecidableEq, Repr

/-- Which phases are recorded. -/
structure Hooks where
  enter : Bool
  exit : Bool
deriving DecidableEq, Repr

def Hooks.wants (hooks : Hooks) : Phase → Bool
  | .enter => hooks.enter
  | .exit => hooks.exit

def Hooks.record (hooks : Hooks) (phase : Phase) (node parent : Tree) : List Event :=
  if hooks.wants phase then [⟨phase, node.kind, node.text?, parent.kind?⟩] else []

structure Visitor (ε α : Type) where
  accept : Tree → Except ε Unit
  build : (node parent : Tree) → List α → Except ε α

/-- An open node, with its children still to visit and what was made of the
others, latest first. -/
structure Frame (α : Type) where
  node : Tree
  parent : Tree
  pending : List Tree
  built : List α

namespace Frame

variable {α : Type}

def enter (node parent : Tree) : Frame α := ⟨node, parent, node.children, []⟩

/-- The next child to visit, unless it is absent. -/
def next? (f : Frame α) : Option (Tree × Frame α) :=
  match f.pending with
  | [] | .absent :: _ => none
  | child :: rest => some (child, { f with pending := rest })

def push (f : Frame α) (a : α) : Frame α := { f with built := a :: f.built }

/-- What was made of the children, in their order. -/
def parts (f : Frame α) : List α := f.built.reverse

def weight (f : Frame α) : Nat := 1 + Tree.weights f.pending

def weights : List (Frame α) → Nat
  | [] => 0
  | f :: fs => f.weight + weights fs

theorem weight_push (f : Frame α) (a : α) : (f.push a).weight = f.weight := rfl

theorem weight_enter (node parent : Tree) :
    (enter node parent : Frame α).weight + 1 = node.weight := by
  rw [node.weight_eq]
  show 1 + Tree.weights node.children + 1 = _
  omega

theorem weight_of_next? {f g : Frame α} {child : Tree} (h : f.next? = some (child, g)) :
    f.weight = child.weight + g.weight := by
  unfold next? at h
  split at h
  · contradiction
  · contradiction
  · rename_i c rest _ hp
    obtain ⟨rfl, rfl⟩ := by simpa using h
    simp only [weight, hp, Tree.weights_cons]
    omega

end Frame

/-- What a walk has recorded, latest first, and how it ended. -/
structure Walked (ε α : Type) where
  trace : List Event
  result : Except ε α

namespace Visitor

variable {ε α : Type}

/-- Goes on with the innermost open node above the others. -/
def resume (v : Visitor ε α) (hooks : Hooks) (top : Frame α) (below : List (Frame α))
    (trace : List Event) : Walked ε α :=
  match _h : top.next? with
  | some (child, top) =>
    match v.accept child with
    | .error e => ⟨trace, .error e⟩
    | .ok () =>
      v.resume hooks (.enter child top.node) (top :: below)
        (hooks.record .enter child top.node ++ trace)
  | none =>
    match v.build top.node top.parent top.parts with
    | .error e => ⟨trace, .error e⟩
    | .ok a =>
      let trace := hooks.record .exit top.node top.parent ++ trace
      match below with
      | [] => ⟨trace, .ok a⟩
      | f :: below => v.resume hooks (f.push a) below trace
termination_by top.weight + Frame.weights below
decreasing_by
  · have hw := Frame.weight_of_next? _h
    have he := Frame.weight_enter (α := α) child top.node
    simp only [Frame.weights]
    omega
  · simp only [Frame.weights, Frame.weight_push]
    simp only [Frame.weight]
    omega

/-- The events of a walk in order, and how it ended. -/
def walk (v : Visitor ε α) (hooks : Hooks) (node parent : Tree) : List Event × Except ε α :=
  match v.accept node with
  | .error e => ([], .error e)
  | .ok () =>
    let w := v.resume hooks (.enter node parent) [] (hooks.record .enter node parent)
    (w.trace.reverse, w.result)

end Visitor

end ParenCall
