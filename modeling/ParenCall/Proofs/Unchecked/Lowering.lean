import Mathlib.Data.List.Basic
import ParenCall.Proofs.Lowering
import ParenCall.Proofs.Report

/-! # Lowering any tree

Lowering takes trees that nobody has checked, and what it does to them is said
here by recursion on the tree: which nodes are refused, which children are looked
at, which failure comes first, and what the hooks are told before it. A node of
an unknown kind is refused on the way down, before anything below it is visited.
Programs that stand in the wrong place are refused on the way up, all those below
one node together. -/

namespace ParenCall

def Tree.isProgram (language : Language) : Tree → Bool
  | .program l _ => l = language
  | _ => false

namespace Lowering

open Target (Node)
open Visitor (Visit)

/-- The end of a visit to a node whose children became `parts`: it is left, unless
there are programs among them. -/
def conclude (hooks : Hooks) (node parent : Tree) (field : String) (parts : List Tree)
    (made : Tree) : Visit Failure Tree :=
  match parts.findIdxs (Tree.isProgram .target) with
  | [] => (if hooks.exit then [Event.ofNode .exit (node, parent)] else [], .ok made)
  | positions =>
    ([], .error (.invalid (positions.map fun i => ⟨[.field field, .index i], .tagUnknown⟩)))

/-- A call of an identifier, which is a statement unless its parent is a call. -/
def callUnder (parent : Tree) (name : String) (arguments : List Tree) : Tree :=
  match parent with
  | .call _ _ => .apply (.identifier name) arguments
  | _ => .statement (.apply (.identifier name) arguments)

mutual

/-- What lowering makes of any node, by recursion. -/
def descend (hooks : Hooks) (parent : Tree) : Tree → Visit Failure Tree
  | .program .source body =>
    Visit.bind (if hooks.enter then [Event.ofNode .enter (.program .source body, parent)] else [],
      .ok ()) fun _ =>
    (descendAll hooks (.program .source body) body).bind fun parts =>
    conclude hooks (.program .source body) parent "body" parts (.program .target parts)
  | .call name params =>
    Visit.bind (if hooks.enter then [Event.ofNode .enter (.call name params, parent)] else [],
      .ok ()) fun _ =>
    (descendAll hooks (.call name params) params).bind fun parts =>
    conclude hooks (.call name params) parent "arguments" parts (callUnder parent name parts)
  | .literal .source l =>
    ((if hooks.enter then [Event.ofNode .enter (.literal .source l, parent)] else []) ++
      (if hooks.exit then [Event.ofNode .exit (.literal .source l, parent)] else []),
      .ok (.literal .target l))
  | t => ([], .error (.unknownKind .lowering t.label))

/-- The children in order, up to the first absent one or the first failure. -/
def descendAll (hooks : Hooks) (parent : Tree) : List Tree → Visit Failure (List Tree)
  | [] | .absent :: _ => ([], .ok [])
  | child :: rest =>
    (descend hooks parent child).bind fun t =>
    (descendAll hooks parent rest).bind fun ts => ([], .ok (t :: ts))

end

theorem descendAll_cons {hooks : Hooks} {parent child : Tree} (hc : child ≠ .absent)
    (rest : List Tree) :
    descendAll hooks parent (child :: rest) =
      (descend hooks parent child).bind fun t =>
        (descendAll hooks parent rest).bind fun ts => ([], .ok (t :: ts)) := by
  cases child with
  | absent => exact absurd rfl hc
  | _ => simp only [descendAll]

/-- What `build` can make of a node, whatever its children became. -/
inductive Builds (parent : Tree) : Tree → Node → Prop
  | program (body : List Tree) (items : List Target.Statement) :
    Builds parent (.program .source body) (.program ⟨items⟩)
  | literal (l : Literal) : Builds parent (.literal .source l) (.expr (.literal l))
  | parameter (name : String) (params : List Tree) (arguments : List Target.Expr)
    (h : isParameter parent = true) :
    Builds parent (.call name params) (.expr (.call ⟨name⟩ arguments))
  | statement (name : String) (params : List Tree) (arguments : List Target.Expr)
    (h : isParameter parent = false) :
    Builds parent (.call name params) (.statement (.call ⟨name⟩ arguments))

theorem builds_of_build {node parent : Tree} {parts : List Node} {n : Node}
    (h : build node parent parts = .ok n) : Builds parent node n := by
  unfold build at h
  split at h
  · obtain ⟨items, _, rfl⟩ := exists_of_map h
    exact .program _ items
  · cases h
    exact .literal _
  · obtain ⟨arguments, _, rfl⟩ := exists_of_map h
    cases hp : isParameter parent with
    | true => exact .parameter _ _ arguments hp
    | false => exact .statement _ _ arguments hp
  · cases h

/-- Below a program every part fits that is no program itself. -/
theorem Builds.statement? {parent node : Tree} {n : Node} (h : Builds parent node n)
    (hp : isParameter parent = false) : n.statement?.isSome = !n.tree.isProgram .target := by
  cases h with
  | program => rfl
  | literal => rfl
  | parameter _ _ _ hparameter => rw [hp] at hparameter; cases hparameter
  | statement => rfl

/-- Below a call every part fits that is no program itself. -/
theorem Builds.expr? {parent node : Tree} {n : Node} (h : Builds parent node n)
    (hp : isParameter parent = true) : n.expr?.isSome = !n.tree.isProgram .target := by
  cases h with
  | program => rfl
  | literal => rfl
  | parameter name params arguments =>
    rw [Node.tree, Target.Expr.tree_call]
    rfl
  | statement _ _ _ hstatement => rw [hp] at hstatement; cases hstatement

/-- The parts of a node were all built below it. -/
theorem builds_of_visitAll {hooks : Hooks} {parent : Tree} {children : List Tree}
    {parts : List Node} (h : (visitor.visitAll hooks parent children).2 = .ok parts) :
    ∀ n ∈ parts, ∃ child, Builds parent child n := by
  induction children generalizing parts with
  | nil =>
    cases h
    intro n hn
    cases hn
  | cons child rest ih =>
    by_cases hc : child = .absent
    · subst hc
      cases h
      intro n hn
      cases hn
    · obtain ⟨a, as, ha, has, rfl⟩ := Visitor.visitAll_cons_eq_ok hc h
      intro n hn
      rcases List.mem_cons.mp hn with rfl | hn
      · obtain ⟨_, hbuild⟩ := Visitor.exists_build_of_visit ha
        exact ⟨child, builds_of_build hbuild⟩
      · exact ih has n hn

/-- A visit with its fault reported and what it made in another form. -/
def reported {α β : Type} (form : α → β) (x : Visit Fault α) : Visit Failure β :=
  (x.1, (x.2.map form).mapError Fault.failure)

theorem reported_bind {α β γ δ : Type} {x : Visit Fault α} {f : α → Visit Fault β} {form : α → γ}
    {g : γ → Visit Failure δ} {form' : β → δ}
    (h : ∀ a, x.2 = .ok a → reported form' (f a) = g (form a)) :
    reported form' (x.bind f) = (reported form x).bind g := by
  obtain ⟨events, e | a⟩ := x
  · rfl
  · have ha := h a rfl
    show reported form' (events ++ (f a).1, (f a).2) = (events ++ (g (form a)).1, (g (form a)).2)
    rw [← ha]
    rfl

theorem misfits_eq_findIdxs {β : Type} {fit : Node → Option β} {nodes : List Node}
    (h : ∀ n ∈ nodes, (fit n).isSome = !n.tree.isProgram .target) (i : Nat) :
    misfits fit i nodes = (nodes.map Node.tree).findIdxs (Tree.isProgram .target) i := by
  induction nodes generalizing i with
  | nil => rfl
  | cons n ns ih =>
    have hrest := ih (fun m hm => h m (List.mem_cons_of_mem _ hm)) (i + 1)
    rw [misfits, h n List.mem_cons_self, hrest, List.map_cons, List.findIdxs_cons]
    cases n.tree.isProgram .target <;> rfl

theorem map_filterMap_fit {β : Type} {fit : Node → Option β} {tree : β → Tree} {nodes : List Node}
    (htree : ∀ n b, fit n = some b → tree b = n.tree)
    (hfit : ∀ n ∈ nodes, (fit n).isSome = true) :
    (nodes.filterMap fit).map tree = nodes.map Node.tree := by
  induction nodes with
  | nil => rfl
  | cons n ns ih =>
    obtain ⟨b, hb⟩ := Option.isSome_iff_exists.mp (hfit n List.mem_cons_self)
    rw [List.filterMap_cons_some hb, List.map_cons, List.map_cons, htree n b hb,
      ih fun m hm => hfit m (List.mem_cons_of_mem _ hm)]

theorem statement?_tree (n : Node) (s : Target.Statement) (h : n.statement? = some s) :
    s.tree = n.tree := by
  cases n with
  | program p => cases h
  | statement e => cases h; rfl
  | expr e =>
    cases e with
    | literal l => cases h; rfl
    | call callee arguments => cases h

theorem expr?_tree (n : Node) (e : Target.Expr) (h : n.expr? = some e) : e.tree = n.tree := by
  cases n with
  | program p => cases h
  | statement e => cases h
  | expr e => cases h; rfl

/-- Placing the parts of a node refuses the programs among them and nothing else. -/
theorem reported_place {β : Type} {fit : Node → Option β} {tree : β → Tree} {make : List β → Node}
    {made : List Tree → Tree} {nodes : List Node}
    (hfit : ∀ n ∈ nodes, (fit n).isSome = !n.tree.isProgram .target)
    (htree : ∀ n b, fit n = some b → tree b = n.tree)
    (hmake : ∀ items, (make items).tree = made (items.map tree))
    (hooks : Hooks) (node parent : Tree) (slot : Slot) :
    reported Node.tree
        (Visit.bind ([], (place slot fit nodes).map make) fun a =>
          (hooks.record .exit node parent, .ok a)) =
      conclude hooks node parent slot.label (nodes.map Node.tree) (made (nodes.map Node.tree)) := by
  rw [place, conclude, misfits_eq_findIdxs hfit, ← Hooks.record_exit]
  cases hpositions : (nodes.map Node.tree).findIdxs (Tree.isProgram .target) with
  | nil =>
    have hall : ∀ n ∈ nodes, (fit n).isSome = true := by
      intro n hn
      rw [hfit n hn, List.findIdxs_eq_nil_iff.mp hpositions _ (List.mem_map_of_mem hn)]
      rfl
    have hitems := hmake (nodes.filterMap fit)
    rw [map_filterMap_fit htree hall] at hitems
    rw [← hitems]
    rfl
  | cons i positions => rfl

theorem reported_visitAll {hooks : Hooks} {parent : Tree} {children : List Tree}
    (h : ∀ child ∈ children, ∀ parent,
      reported Node.tree (visitor.visit hooks child parent) = descend hooks parent child) :
    reported (List.map Node.tree) (visitor.visitAll hooks parent children) =
      descendAll hooks parent children := by
  induction children with
  | nil => rfl
  | cons child rest ih =>
    have hrest := ih fun c hc => h c (List.mem_cons_of_mem _ hc)
    by_cases hc : child = .absent
    · subst hc
      rfl
    · rw [Visitor.visitAll_cons hc, descendAll_cons hc, ← h child List.mem_cons_self, ← hrest]
      exact reported_bind fun a _ => reported_bind fun as _ => rfl

theorem reported_refused {hooks : Hooks} {node parent : Tree}
    (h : accept node = .error (.unhandled node.kind)) :
    reported Node.tree (visitor.visit hooks node parent) =
      ([], .error (.unknownKind .lowering node.label)) := by
  have hvisit : visitor.visit hooks node parent = ([], .error (.unhandled node.kind)) := by
    rw [Visitor.visit_eq, Visitor.around, show visitor.accept node = _ from h]
    rfl
  rw [hvisit, ← node.kind_eq_label, ← Failure.raise_unhandledKind]
  rfl

theorem reported_taken {hooks : Hooks} {node parent : Tree}
    {finish : List Tree → Visit Failure Tree} (haccept : accept node = .ok ())
    (hchildren : ∀ child ∈ node.children, ∀ parent,
      reported Node.tree (visitor.visit hooks child parent) = descend hooks parent child)
    (hfinish : ∀ parts, (∀ n ∈ parts, ∃ child, Builds node child n) →
      reported Node.tree (Visit.bind ([], build node parent parts) fun a =>
        (hooks.record .exit node parent, .ok a)) = finish (parts.map Node.tree)) :
    reported Node.tree (visitor.visit hooks node parent) =
      Visit.bind (if hooks.enter then [Event.ofNode .enter (node, parent)] else [], .ok ()) fun _ =>
        (descendAll hooks node node.children).bind finish := by
  have hvisit : visitor.visit hooks node parent =
      Visit.bind (hooks.record .enter node parent, .ok ()) fun _ =>
        (visitor.visitAll hooks node node.children).bind fun parts =>
          Visit.bind ([], build node parent parts) fun a =>
            (hooks.record .exit node parent, .ok a) := by
    rw [Visitor.visit_eq, Visitor.around, show visitor.accept node = _ from haccept]
    rfl
  -- the parts come from children of this very node, which is why they fit below it
  have hinside := reported_bind fun parts
    (hparts : (visitor.visitAll hooks node node.children).2 = .ok parts) =>
      hfinish parts (builds_of_visitAll hparts)
  rw [reported_visitAll hchildren] at hinside
  rw [hvisit, ← hinside, ← Hooks.record_enter]
  rfl

/-- The recursion agrees with the visit that lowering is made of. The children of
a node are visited first, so their results are known to be of the sort that fits
below it, programs apart. -/
theorem reported_visit (hooks : Hooks) (node parent : Tree) :
    reported Node.tree (visitor.visit hooks node parent) = descend hooks parent node := by
  induction node using Tree.induction generalizing parent with
  | node node ih =>
    cases node with
    | absent => exact reported_refused rfl
    | foreign kind => exact reported_refused rfl
    | apply callee arguments => exact reported_refused rfl
    | statement expression => exact reported_refused rfl
    | identifier name => exact reported_refused rfl
    | literal language l =>
      cases language with
      | target => exact reported_refused rfl
      | source =>
        have hvisit : visitor.visit hooks (.literal .source l) parent =
            (Visitor.recordAround hooks (.literal .source l) parent [], .ok (.expr (.literal l))) :=
          Visitor.visit_eq_ok rfl rfl rfl
        rw [hvisit, descend, ← Hooks.record_enter, ← Hooks.record_exit]
        rfl
    | program language body =>
      cases language with
      | target => exact reported_refused rfl
      | source =>
        refine (reported_taken rfl ih fun parts hparts => ?_).trans (by rw [descend]; rfl)
        refine reported_place (fun n hn => ?_) statement?_tree (fun items => ?_) hooks _ _ .body
        · obtain ⟨child, hbuilds⟩ := hparts n hn
          exact hbuilds.statement? rfl
        · rfl
    | call name params =>
      refine (reported_taken rfl ih fun parts hparts => ?_).trans (by rw [descend]; rfl)
      refine reported_place (fun n hn => ?_) expr?_tree (fun items => ?_) hooks _ parent .arguments
      · obtain ⟨child, hbuilds⟩ := hparts n hn
        exact hbuilds.expr? rfl
      · show (if isParameter parent then Node.expr (.call ⟨name⟩ items)
            else .statement (.call ⟨name⟩ items)).tree =
          callUnder parent name (items.map Target.Expr.tree)
        cases parent <;> simp [isParameter, callUnder, Node.tree, Target.Expr.tree_call,
          Target.Identifier.tree]

/-- Lowering with a stack of its own is the recursion, on every tree, under every
parent and with any hooks: the same events, and the same result or failure. -/
theorem lower_eq_descend (hooks : Hooks) (node parent : Tree) :
    ((lower hooks node parent).1,
      ((lower hooks node parent).2.map Node.tree).mapError Fault.failure) =
      descend hooks parent node := by
  rw [lower, Visitor.walk_eq_visit]
  exact reported_visit hooks node parent

end Lowering

end ParenCall
