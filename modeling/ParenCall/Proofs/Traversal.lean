import ParenCall.Proofs.Induction
import ParenCall.Walk

/-! # Walks by recursion

What a walk does, said by recursion on the tree and without a stack: a node is
accepted and entered, its children are visited in order up to the first absent
one, and then the node is built from what they became and left. The walk with
its own stack agrees with it. The invariant is about the innermost open node:
going on with its pending children is the recursive visit of these children,
and then going on with none pending. -/

namespace ParenCall

theorem Frame.next?_cons {α : Type} {node parent child : Tree} {rest : List Tree} {built : List α}
    (hc : child ≠ .absent) :
    (⟨node, parent, child :: rest, built⟩ : Frame α).next? =
      some (child, ⟨node, parent, rest, built⟩) := by
  cases child with
  | absent => exact absurd rfl hc
  | _ => rfl

namespace Visitor

variable {ε α : Type}

/-- The events of a visit in order, and how it ended. -/
abbrev Visit (ε α : Type) := List Event × Except ε α

/-- One visit after another, the second only if the first succeeds. -/
def Visit.bind {β : Type} (x : Visit ε α) (f : α → Visit ε β) : Visit ε β :=
  match x with
  | (events, .error e) => (events, .error e)
  | (events, .ok a) => (events ++ (f a).1, (f a).2)

theorem Visit.bind_eq_ok_iff {β : Type} {x : Visit ε α} {f : α → Visit ε β} {b : β} :
    (x.bind f).2 = .ok b ↔ ∃ a, x.2 = .ok a ∧ (f a).2 = .ok b := by
  obtain ⟨events, e | a⟩ := x <;> simp [Visit.bind]

/-- A node, given the visit of its children. -/
def around (v : Visitor ε α) (hooks : Hooks) (node parent : Tree) (inside : Visit ε (List α)) :
    Visit ε α :=
  Visit.bind ([], v.accept node) fun _ =>
  Visit.bind (hooks.record .enter node parent, .ok ()) fun _ =>
  Visit.bind inside fun parts =>
  Visit.bind ([], v.build node parent parts) fun a =>
  (hooks.record .exit node parent, .ok a)

/-- A child and then its later siblings, unless the child is absent. -/
def andThen (child : Tree) (first : Visit ε α) (rest : Visit ε (List α)) : Visit ε (List α) :=
  match child with
  | .absent => ([], .ok [])
  | _ => first.bind fun a => rest.bind fun as => ([], .ok (a :: as))

mutual

def visit (v : Visitor ε α) (hooks : Hooks) (node parent : Tree) : Visit ε α :=
  match node with
  | .program language body =>
    v.around hooks (.program language body) parent
      (v.visitAll hooks (.program language body) body)
  | .call name params =>
    v.around hooks (.call name params) parent (v.visitAll hooks (.call name params) params)
  | .apply callee arguments =>
    v.around hooks (.apply callee arguments) parent
      (andThen callee (v.visit hooks callee (.apply callee arguments))
        (v.visitAll hooks (.apply callee arguments) arguments))
  | .statement expression =>
    v.around hooks (.statement expression) parent
      (andThen expression (v.visit hooks expression (.statement expression)) ([], .ok []))
  | .absent => v.around hooks .absent parent ([], .ok [])
  | .foreign kind => v.around hooks (.foreign kind) parent ([], .ok [])
  | .literal language l => v.around hooks (.literal language l) parent ([], .ok [])
  | .identifier name => v.around hooks (.identifier name) parent ([], .ok [])

def visitAll (v : Visitor ε α) (hooks : Hooks) (parent : Tree) : List Tree → Visit ε (List α)
  | [] => ([], .ok [])
  | t :: ts => andThen t (v.visit hooks t parent) (v.visitAll hooks parent ts)

end

theorem visit_eq (v : Visitor ε α) (hooks : Hooks) (node parent : Tree) :
    v.visit hooks node parent =
      v.around hooks node parent (v.visitAll hooks node node.children) := by
  cases node <;> simp only [visit, visitAll, Tree.children]

theorem visitAll_cons {v : Visitor ε α} {hooks : Hooks} {parent child : Tree}
    (hc : child ≠ .absent) (rest : List Tree) :
    v.visitAll hooks parent (child :: rest) =
      (v.visit hooks child parent).bind fun a =>
        (v.visitAll hooks parent rest).bind fun as => ([], .ok (a :: as)) := by
  rw [visitAll]
  cases child with
  | absent => exact absurd rfl hc
  | _ => rfl

/-! ## The walk with a stack -/

/-- A walk that goes on from a visit with what it made, after the events of
`trace`, which has the latest event first. -/
def Visit.feed {β : Type} (x : Visit ε α) (trace : List Event)
    (next : α → List Event → Walked ε β) : Walked ε β :=
  match x with
  | (events, .error e) => ⟨events.reverse ++ trace, .error e⟩
  | (events, .ok a) => next a (events.reverse ++ trace)

theorem Visit.feed_bind {β γ : Type} (x : Visit ε α) (f : α → Visit ε β) (trace : List Event)
    (next : β → List Event → Walked ε γ) :
    (x.bind f).feed trace next = x.feed trace fun a trace => (f a).feed trace next := by
  obtain ⟨events, e | a⟩ := x
  · rfl
  · rcases hf : f a with ⟨more, e | b⟩ <;> simp [bind, feed, hf]

theorem Visit.feed_ok {β : Type} (events : List Event) (a : α) (trace : List Event)
    (next : α → List Event → Walked ε β) :
    Visit.feed (events, .ok a) trace next = next a (events.reverse ++ trace) := rfl

/-- What is made of a node goes to the innermost of the nodes still open. -/
def give (v : Visitor ε α) (hooks : Hooks) (below : List (Frame α)) (a : α)
    (trace : List Event) : Walked ε α :=
  match below with
  | [] => ⟨trace, .ok a⟩
  | f :: below => v.resume hooks (f.push a) below trace

theorem resume_of_next?_eq_none {v : Visitor ε α} {hooks : Hooks} {top : Frame α}
    (h : top.next? = none) (below : List (Frame α)) (trace : List Event) :
    v.resume hooks top below trace =
      Visit.feed ([], v.build top.node top.parent top.parts) trace fun a trace =>
        v.give hooks below a (hooks.record .exit top.node top.parent ++ trace) := by
  rw [resume]
  split
  · rename_i hs
    rw [h] at hs
    contradiction
  · cases v.build top.node top.parent top.parts with
    | error e => rfl
    | ok a => cases below <;> rfl

theorem resume_of_next?_eq_some {v : Visitor ε α} {hooks : Hooks} {top rest : Frame α}
    {child : Tree} (h : top.next? = some (child, rest)) (below : List (Frame α))
    (trace : List Event) :
    v.resume hooks top below trace =
      Visit.feed ([], v.accept child) trace fun _ trace =>
        v.resume hooks (.enter child rest.node) (rest :: below)
          (hooks.record .enter child rest.node ++ trace) := by
  rw [resume]
  split
  · rename_i hs
    rw [h] at hs
    cases hs
    cases v.accept child <;> rfl
  · rename_i hs
    rw [h] at hs
    contradiction

theorem reverse_record (hooks : Hooks) (phase : Phase) (node parent : Tree) :
    (hooks.record phase node parent).reverse = hooks.record phase node parent := by
  unfold Hooks.record
  split <;> rfl

/-- Opening the node on top of any open nodes amounts to visiting it and handing
what was made of it to them. -/
def Follows (v : Visitor ε α) (hooks : Hooks) (node : Tree) : Prop :=
  ∀ parent below trace,
    (v.visit hooks node parent).feed trace (v.give hooks below) =
      Visit.feed ([], v.accept node) trace fun _ trace =>
        v.resume hooks (.enter node parent) below (hooks.record .enter node parent ++ trace)

theorem resume_eq_feed_visitAll {v : Visitor ε α} {hooks : Hooks} {node parent : Tree}
    {pending : List Tree} (h : ∀ child ∈ pending, v.Follows hooks child)
    (built : List α) (below : List (Frame α)) (trace : List Event) :
    v.resume hooks ⟨node, parent, pending, built⟩ below trace =
      (v.visitAll hooks node pending).feed trace fun parts trace =>
        v.resume hooks ⟨node, parent, [], parts.reverse ++ built⟩ below trace := by
  induction pending generalizing built trace with
  | nil => rfl
  | cons child rest ih =>
    by_cases hc : child = .absent
    · -- an absent child ends the list, as if nothing were pending
      subst hc
      rw [resume_of_next?_eq_none rfl, visitAll, andThen, Visit.feed_ok,
        resume_of_next?_eq_none rfl]
      rfl
    · rw [resume_of_next?_eq_some (Frame.next?_cons hc), ← h child List.mem_cons_self,
        visitAll_cons hc, Visit.feed_bind]
      congr 1
      funext a trace
      have hrest := ih (fun c hc => h c (List.mem_cons_of_mem _ hc)) (a :: built) trace
      rw [Visit.feed_bind]
      refine hrest.trans ?_
      congr 1
      funext parts trace
      rw [Visit.feed_ok]
      simp

theorem follows_of_children {v : Visitor ε α} {hooks : Hooks} {node : Tree}
    (h : ∀ child ∈ node.children, v.Follows hooks child) : v.Follows hooks node := by
  intro parent below trace
  rw [visit_eq, around, Visit.feed_bind]
  congr 1
  funext _ trace
  rw [Frame.enter, resume_eq_feed_visitAll h, Visit.feed_bind, Visit.feed_ok, reverse_record,
    Visit.feed_bind]
  congr 1
  funext parts trace
  rw [resume_of_next?_eq_none rfl, Visit.feed_bind, Frame.parts, List.append_nil,
    List.reverse_reverse]
  congr 1
  funext a trace
  rw [Visit.feed_ok, reverse_record]

theorem follows (v : Visitor ε α) (hooks : Hooks) (node : Tree) : v.Follows hooks node :=
  Tree.induction (fun _ => follows_of_children) node

/-- The walk with a stack is the visit by recursion. -/
theorem walk_eq_visit (v : Visitor ε α) (hooks : Hooks) (node parent : Tree) :
    v.walk hooks node parent = v.visit hooks node parent := by
  have h := v.follows hooks node parent [] []
  have hfeed : ∀ x : Visit ε α, x.feed [] (v.give hooks []) = ⟨x.1.reverse, x.2⟩ := by
    rintro ⟨events, e | a⟩ <;> simp [Visit.feed, give]
  rw [hfeed] at h
  rw [walk]
  cases ha : v.accept node with
  | error e =>
    rw [ha] at h
    obtain ⟨htrace, hresult⟩ := Walked.mk.inj h
    exact Prod.ext (List.reverse_eq_nil_iff.mp htrace).symm hresult.symm
  | ok _ =>
    rw [ha, Visit.feed_ok, List.reverse_nil, List.nil_append, List.append_nil] at h
    simp only [← h, List.reverse_reverse]

/-! ## Hooks only watch -/

theorem record_quiet (phase : Phase) (node parent : Tree) :
    Hooks.record ⟨false, false⟩ phase node parent = [] := by
  cases phase <;> rfl

theorem visitAll_quiet {v : Visitor ε α} {hooks : Hooks} {parent : Tree} {children : List Tree}
    (h : ∀ child ∈ children, ∀ parent,
      v.visit ⟨false, false⟩ child parent = ([], (v.visit hooks child parent).2)) :
    v.visitAll ⟨false, false⟩ parent children = ([], (v.visitAll hooks parent children).2) := by
  induction children with
  | nil => rfl
  | cons child rest ih =>
    have hrest := ih fun c hc => h c (List.mem_cons_of_mem _ hc)
    by_cases hc : child = .absent
    · subst hc
      rfl
    · rw [visitAll_cons hc, visitAll_cons hc, h child List.mem_cons_self, hrest]
      rcases v.visit hooks child parent with ⟨_, e | a⟩
      · rfl
      · rcases v.visitAll hooks parent rest with ⟨_, e | as⟩ <;> rfl

/-- Without hooks a visit ends as it does with any, and nothing is recorded. -/
theorem visit_quiet (v : Visitor ε α) (hooks : Hooks) (node parent : Tree) :
    v.visit ⟨false, false⟩ node parent = ([], (v.visit hooks node parent).2) := by
  induction node using Tree.induction generalizing parent with
  | node node ih =>
    rw [visit_eq, visit_eq, visitAll_quiet ih, around, around]
    cases v.accept node with
    | error e => rfl
    | ok _ =>
      rcases v.visitAll hooks node node.children with ⟨_, e | parts⟩
      · rfl
      · cases hbuild : v.build node parent parts <;> simp [Visit.bind, hbuild, record_quiet]

/-! ## Visits that succeed -/

/-- What is recorded of a node, given what is recorded inside of it. -/
def recordAround (hooks : Hooks) (node parent : Tree) (inside : List Event) : List Event :=
  hooks.record .enter node parent ++ (inside ++ hooks.record .exit node parent)

theorem visit_eq_ok {v : Visitor ε α} {hooks : Hooks} {node parent : Tree} {events : List Event}
    {parts : List α} {a : α} (haccept : v.accept node = .ok ())
    (hparts : v.visitAll hooks node node.children = (events, .ok parts))
    (hbuild : v.build node parent parts = .ok a) :
    v.visit hooks node parent = (recordAround hooks node parent events, .ok a) := by
  rw [visit_eq, around, haccept, hparts]
  simp [Visit.bind, hbuild, recordAround]

theorem visit_ok {v : Visitor ε α} {hooks : Hooks} {node parent : Tree} {parts : List α} {a : α}
    (haccept : v.accept node = .ok ())
    (hparts : (v.visitAll hooks node node.children).2 = .ok parts)
    (hbuild : v.build node parent parts = .ok a) : (v.visit hooks node parent).2 = .ok a := by
  have hinside : v.visitAll hooks node node.children = (_, .ok parts) := Prod.ext rfl hparts
  rw [visit_eq_ok haccept hinside hbuild]

/-- How a visit ends, whatever is recorded of it. -/
theorem visit_result (v : Visitor ε α) (hooks : Hooks) (node parent : Tree) :
    (v.visit hooks node parent).2 =
      (v.accept node).bind fun _ =>
        (v.visitAll hooks node node.children).2.bind (v.build node parent) := by
  rw [visit_eq, around]
  cases v.accept node with
  | error e => rfl
  | ok _ =>
    rcases v.visitAll hooks node node.children with ⟨events, e | parts⟩
    · rfl
    · cases hbuild : v.build node parent parts <;> simp [Visit.bind, Except.bind, hbuild]

theorem exists_build_of_visit {v : Visitor ε α} {hooks : Hooks} {node parent : Tree} {a : α}
    (h : (v.visit hooks node parent).2 = .ok a) : ∃ parts, v.build node parent parts = .ok a := by
  rw [visit_eq, around] at h
  obtain ⟨_, _, h⟩ := Visit.bind_eq_ok_iff.mp h
  obtain ⟨_, _, h⟩ := Visit.bind_eq_ok_iff.mp h
  obtain ⟨parts, _, h⟩ := Visit.bind_eq_ok_iff.mp h
  obtain ⟨b, hbuild, h⟩ := Visit.bind_eq_ok_iff.mp h
  cases h
  exact ⟨parts, hbuild⟩

theorem visitAll_cons_eq_ok {v : Visitor ε α} {hooks : Hooks} {parent child : Tree}
    {rest : List Tree} {parts : List α} (hc : child ≠ .absent)
    (h : (v.visitAll hooks parent (child :: rest)).2 = .ok parts) :
    ∃ a as, (v.visit hooks child parent).2 = .ok a ∧
      (v.visitAll hooks parent rest).2 = .ok as ∧ parts = a :: as := by
  rw [visitAll_cons hc] at h
  obtain ⟨a, ha, h⟩ := Visit.bind_eq_ok_iff.mp h
  obtain ⟨as, has, h⟩ := Visit.bind_eq_ok_iff.mp h
  cases h
  exact ⟨a, as, ha, has, rfl⟩

theorem visitAll_cons_ok {v : Visitor ε α} {hooks : Hooks} {parent child : Tree}
    {rest : List Tree} {a : α} {as : List α} (hc : child ≠ .absent)
    (ha : (v.visit hooks child parent).2 = .ok a)
    (has : (v.visitAll hooks parent rest).2 = .ok as) :
    (v.visitAll hooks parent (child :: rest)).2 = .ok (a :: as) := by
  have hchild : v.visit hooks child parent = (_, .ok a) := Prod.ext rfl ha
  have hrest : v.visitAll hooks parent rest = (_, .ok as) := Prod.ext rfl has
  rw [visitAll_cons hc, hchild, hrest]
  rfl

theorem visitAll_map_eq_ok {β : Type} {v : Visitor ε α} {hooks : Hooks} {parent : Tree}
    {xs : List β} {tree : β → Tree} {events : β → List Event} {made : β → α}
    (hthere : ∀ x ∈ xs, tree x ≠ .absent)
    (hmade : ∀ x ∈ xs, v.visit hooks (tree x) parent = (events x, .ok (made x))) :
    v.visitAll hooks parent (xs.map tree) = (xs.flatMap events, .ok (xs.map made)) := by
  induction xs with
  | nil => rfl
  | cons x xs ih =>
    have hrest := ih (fun y hy => hthere y (List.mem_cons_of_mem _ hy))
      (fun y hy => hmade y (List.mem_cons_of_mem _ hy))
    rw [List.map_cons, visitAll_cons (hthere x List.mem_cons_self), hmade x List.mem_cons_self,
      hrest]
    simp [Visit.bind]

theorem visitAll_map_ok {β : Type} {v : Visitor ε α} {hooks : Hooks} {parent : Tree}
    {xs : List β} {tree : β → Tree} {made : β → α} (hthere : ∀ x ∈ xs, tree x ≠ .absent)
    (hmade : ∀ x ∈ xs, (v.visit hooks (tree x) parent).2 = .ok (made x)) :
    (v.visitAll hooks parent (xs.map tree)).2 = .ok (xs.map made) := by
  have hall := visitAll_map_eq_ok hthere fun x hx => Prod.ext rfl (hmade x hx)
  rw [hall]

end Visitor

end ParenCall
