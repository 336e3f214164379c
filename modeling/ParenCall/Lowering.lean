import ParenCall.Failure
import ParenCall.Walk

/-! Lowering: from the language that is read to the one that is written. A
call becomes a call of an identifier, and a statement unless it is a parameter
of another call. Every node is made of what its children became, and refused
when one of them does not fit there, which happens only to a program inside a
program or a call. -/

namespace ParenCall.Lowering

open Target (Node)

/-- The place of a node's children. -/
inductive Slot where
  | body
  | arguments
deriving DecidableEq, Repr

def Slot.label : Slot → String
  | .body => "body"
  | .arguments => "arguments"

inductive Fault where
  | unhandled (kind : String)
  | misplaced (slot : Slot) (positions : List Nat)
deriving DecidableEq, Repr

def Fault.failure : Fault → Failure
  | .unhandled kind => .raise .lowering .unhandledKind [("kind", .text kind)] none
  | .misplaced slot positions =>
    .invalid (positions.map fun i => ⟨[.field slot.label, .index i], .tagUnknown⟩)

/-- The positions of the nodes that do not fit, counted from `i`. -/
def misfits {β : Type} (fit : Node → Option β) (i : Nat) : List Node → List Nat
  | [] => []
  | n :: ns => if (fit n).isSome then misfits fit (i + 1) ns else i :: misfits fit (i + 1) ns

def place {β : Type} (slot : Slot) (fit : Node → Option β) (nodes : List Node) :
    Except Fault (List β) :=
  match misfits fit 0 nodes with
  | [] => .ok (nodes.filterMap fit)
  | positions => .error (.misplaced slot positions)

def accept : Tree → Except Fault Unit
  | .program .source _ | .literal .source _ | .call _ _ => .ok ()
  | t => .error (.unhandled t.kind)

def isParameter : (parent : Tree) → Bool
  | .call _ _ => true
  | _ => false

def build (node parent : Tree) (parts : List Node) : Except Fault Node :=
  match node with
  | .program .source _ => (place .body Node.statement? parts).map fun body => .program ⟨body⟩
  | .literal .source l => .ok (.expr (.literal l))
  | .call name _ =>
    (place .arguments Node.expr? parts).map fun arguments =>
      let e := .call ⟨name⟩ arguments
      if isParameter parent then .expr e else .statement e
  | t => .error (.unhandled t.kind)

def visitor : Visitor Fault Node := ⟨accept, build⟩

def lower (hooks : Hooks) (node : Tree) (parent : Tree := .absent) :
    List Event × Except Fault Node :=
  visitor.walk hooks node parent

end ParenCall.Lowering
