import Mathlib.Logic.Relation
import ParenCall.Proofs.Rendering
import ParenCall.Proofs.Unchecked.Lowering

/-! # Where lowering and rendering agree

A walk over a tree reaches its root and, below every node that it reaches, the
children in front of the first absent one. Whether lowering succeeds depends on
these nodes alone: they must all be nodes of the source language, and none below
the root may be a program. What lowering makes can then always be rendered. -/

namespace ParenCall

namespace Tree

def isPresent : Tree → Bool
  | .absent => false
  | _ => true

/-- The child is one that a walk looks at: no child before it is absent. -/
def Leads (parent child : Tree) : Prop := child ∈ parent.children.takeWhile isPresent

def isSource : Tree → Bool
  | .program .source _ | .literal .source _ | .call _ _ => true
  | _ => false

theorem isPresent_of_ne {t : Tree} (h : t ≠ .absent) : t.isPresent = true := by
  cases t with
  | absent => exact absurd rfl h
  | _ => rfl

theorem Leads.mem_children {parent child : Tree} (h : parent.Leads child) :
    child ∈ parent.children :=
  (List.takeWhile_sublist _).mem h

end Tree

namespace Lowering

open Target (Node)
open Visitor (Visit)
open Relation (ReflTransGen TransGen)

theorem conclude_eq_ok_iff {hooks : Hooks} {node parent made t : Tree} {field : String}
    {parts : List Tree} :
    (conclude hooks node parent field parts made).2 = .ok t ↔
      (∀ part ∈ parts, part.isProgram .target = false) ∧ made = t := by
  rw [conclude, ← List.findIdxs_eq_nil_iff]
  cases parts.findIdxs (Tree.isProgram .target) <;> simp

/-- Programs come from programs. -/
theorem isProgram_of_descend {hooks : Hooks} {parent node t : Tree}
    (h : (descend hooks parent node).2 = .ok t) : t.isProgram .target = node.isProgram .source := by
  unfold descend at h
  split at h
  · obtain ⟨_, _, h⟩ := Visit.bind_eq_ok_iff.mp h
    obtain ⟨parts, _, h⟩ := Visit.bind_eq_ok_iff.mp h
    obtain ⟨_, rfl⟩ := conclude_eq_ok_iff.mp h
    rfl
  · obtain ⟨_, _, h⟩ := Visit.bind_eq_ok_iff.mp h
    obtain ⟨parts, _, h⟩ := Visit.bind_eq_ok_iff.mp h
    obtain ⟨_, rfl⟩ := conclude_eq_ok_iff.mp h
    cases parent <;> rfl
  · cases h
    rfl
  · cases h

theorem descendAll_ok_iff {hooks : Hooks} {parent : Tree} {children : List Tree} :
    (∃ parts, (descendAll hooks parent children).2 = .ok parts ∧
      ∀ part ∈ parts, part.isProgram .target = false) ↔
    ∀ child ∈ children.takeWhile Tree.isPresent,
      child.isProgram .source = false ∧ ∃ t, (descend hooks parent child).2 = .ok t := by
  induction children with
  | nil => simp [descendAll]
  | cons child rest ih =>
    by_cases hc : child = .absent
    · subst hc
      simp [descendAll, Tree.isPresent]
    · rw [List.takeWhile_cons_of_pos (Tree.isPresent_of_ne hc), List.forall_mem_cons, ← ih,
        descendAll_cons hc]
      constructor
      · rintro ⟨parts, hparts, hnone⟩
        obtain ⟨t, ht, hparts⟩ := Visit.bind_eq_ok_iff.mp hparts
        obtain ⟨ts, hts, hparts⟩ := Visit.bind_eq_ok_iff.mp hparts
        cases hparts
        obtain ⟨hfirst, hothers⟩ := List.forall_mem_cons.mp hnone
        exact ⟨⟨isProgram_of_descend ht ▸ hfirst, t, ht⟩, ts, hts, hothers⟩
      · rintro ⟨⟨hchild, t, ht⟩, ts, hts, hothers⟩
        have hfirst : t.isProgram .target = false := isProgram_of_descend ht ▸ hchild
        refine ⟨t :: ts, ?_, List.forall_mem_cons.mpr ⟨hfirst, hothers⟩⟩
        exact Visit.bind_eq_ok_iff.mpr ⟨t, ht, Visit.bind_eq_ok_iff.mpr ⟨ts, hts, rfl⟩⟩

theorem concluded_ok_iff {hooks : Hooks} {node parent : Tree} {events : List Event}
    {field : String} {made : List Tree → Tree} :
    (∃ t, (Visit.bind (events, .ok ()) fun _ =>
      (descendAll hooks node node.children).bind fun parts =>
        conclude hooks node parent field parts (made parts)).2 = .ok t) ↔
    ∀ child, node.Leads child →
      child.isProgram .source = false ∧ ∃ t, (descend hooks node child).2 = .ok t := by
  refine Iff.trans ?_ descendAll_ok_iff
  constructor
  · rintro ⟨t, ht⟩
    obtain ⟨_, _, ht⟩ := Visit.bind_eq_ok_iff.mp ht
    obtain ⟨parts, hparts, ht⟩ := Visit.bind_eq_ok_iff.mp ht
    exact ⟨parts, hparts, (conclude_eq_ok_iff.mp ht).1⟩
  · rintro ⟨parts, hparts, hnone⟩
    have hmade : (conclude hooks node parent field parts (made parts)).2 = .ok (made parts) :=
      conclude_eq_ok_iff.mpr ⟨hnone, rfl⟩
    refine ⟨made parts, Visit.bind_eq_ok_iff.mpr ⟨(), rfl, ?_⟩⟩
    exact Visit.bind_eq_ok_iff.mpr ⟨parts, hparts, hmade⟩

/-- One step down: a node is lowered if it is of the source language and the
children that it leads to are no programs and are lowered themselves. -/
theorem descend_ok_iff {hooks : Hooks} {parent node : Tree} :
    (∃ t, (descend hooks parent node).2 = .ok t) ↔
      node.isSource = true ∧ ∀ child, node.Leads child →
        child.isProgram .source = false ∧ ∃ t, (descend hooks node child).2 = .ok t := by
  cases hsource : node.isSource with
  | false =>
    have hrefused :
        descend hooks parent node = ([], .error (.unknownKind .lowering node.label)) := by
      unfold descend
      split
      · cases hsource
      · cases hsource
      · cases hsource
      · rfl
    simp [hrefused]
  | true =>
    rw [eq_self, true_and]
    cases node with
    | program language body =>
      cases language with
      | target => cases hsource
      | source => rw [descend]; exact concluded_ok_iff
    | call name params => rw [descend]; exact concluded_ok_iff
    | literal language l =>
      cases language with
      | target => cases hsource
      | source => simp [descend, Tree.Leads, Tree.children]
    | _ => cases hsource

/-- Lowering looks at the nodes that the root reaches and at no others. -/
theorem descend_ok_iff_reached {hooks : Hooks} {parent root : Tree} :
    (∃ t, (descend hooks parent root).2 = .ok t) ↔
      (∀ t, ReflTransGen Tree.Leads root t → t.isSource = true) ∧
      ∀ t, TransGen Tree.Leads root t → t.isProgram .source = false := by
  induction root using Tree.induction generalizing parent with
  | node root ih =>
    rw [descend_ok_iff]
    constructor
    · rintro ⟨hsource, hbelow⟩
      have hchild (child : Tree) (hc : root.Leads child) :=
        (ih child hc.mem_children).mp (hbelow child hc).2
      constructor
      · intro t ht
        rcases ht.cases_head with rfl | ⟨child, hc, ht⟩
        · exact hsource
        · exact (hchild child hc).1 t ht
      · intro t ht
        -- below the root, a node is a child that the root leads to or is below one
        obtain ⟨child, hc, ht⟩ := TransGen.head'_iff.mp ht
        rcases Relation.reflTransGen_iff_eq_or_transGen.mp ht with rfl | ht
        · exact (hbelow t hc).1
        · exact (hchild child hc).2 t ht
    · rintro ⟨hsource, hprogram⟩
      refine ⟨hsource root .refl, fun child hc => ⟨hprogram child (.single hc), ?_⟩⟩
      refine (ih child hc.mem_children).mpr ⟨fun t ht => ?_, fun t ht => ?_⟩
      · exact hsource t (.head hc ht)
      · exact hprogram t (.head hc ht)

theorem lower_ok_iff_descend {hooks : Hooks} {node parent : Tree} :
    (∃ n, (lower hooks node parent).2 = .ok n) ↔ ∃ t, (descend hooks parent node).2 = .ok t := by
  rw [lower, Visitor.walk_eq_visit, ← reported_visit]
  rcases visitor.visit hooks node parent with ⟨events, f | n⟩ <;>
    simp [reported, Except.map, Except.mapError]

end Lowering

/-- Whatever comes out of lowering can be rendered. -/
theorem Rendering.exists_render_node (n : Target.Node) : ∃ output, render n.tree = .ok output := by
  have hvisit (t : Tree) : render t = (visitor.visit ⟨false, false⟩ t .absent).2 := by
    rw [render, Visitor.walk_eq_visit]
  cases n with
  | program p => exact ⟨p.written, render_program p⟩
  | statement e =>
    have hrender := visit_statement ⟨false, false⟩ (.expression e) .absent
    exact ⟨_, (hvisit _).trans hrender⟩
  | expr e => exact ⟨e.written, (hvisit _).trans (visit_expr ..)⟩

namespace Lowering

open Target (Node)
open Relation (ReflTransGen TransGen)

/-- Lowering succeeds on exactly those trees whose reached nodes are all of the
source language and, the root apart, no programs. What it then makes is rendered
without a failure. -/
theorem lower_ok_iff_reached_and_renders (hooks : Hooks) (node parent : Tree) :
    ((∃ n, (lower hooks node parent).2 = .ok n) ↔
      (∀ t, ReflTransGen Tree.Leads node t → t.isSource = true) ∧
      ∀ t, TransGen Tree.Leads node t → t.isProgram .source = false) ∧
    ∀ n, (lower hooks node parent).2 = .ok n → ∃ output, Rendering.render n.tree = .ok output :=
  ⟨lower_ok_iff_descend.trans descend_ok_iff_reached, fun n _ => Rendering.exists_render_node n⟩

/-- Nothing behind an absent parameter is looked at, so a call with a foreign
node there is lowered and rendered. -/
theorem lower_renders_before_absent :
    let node : Tree := .call "f" [.literal .source ⟨.number, "1"⟩, .absent, .foreign "Junk"]
    let made : Node := .statement (.call ⟨"f"⟩ [.literal ⟨.number, "1"⟩])
    (lower ⟨true, true⟩ node).2 = .ok made ∧
      (∀ t, ReflTransGen Tree.Leads node t → t.isSource = true) ∧
      ∃ output, Rendering.render made.tree = .ok output := by
  intro node made
  have hlower : (lower ⟨true, true⟩ node).2 = .ok made := by
    rw [lower, Visitor.walk_eq_visit]
    rfl
  obtain ⟨hreached, hrenders⟩ := lower_ok_iff_reached_and_renders ⟨true, true⟩ node .absent
  exact ⟨hlower, (hreached.mp ⟨made, hlower⟩).1, hrenders made hlower⟩

end Lowering

end ParenCall
