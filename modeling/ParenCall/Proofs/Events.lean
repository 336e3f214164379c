import ParenCall.Proofs.Lowering
import ParenCall.Proofs.Nodes
import ParenCall.Proofs.Tours

/-! # The events of a walk

What lowering tells its hooks of a program is a tour of the program's nodes, with
every node's kind, its text and the kind of its parent. Hooks that want one phase
only are told of the nodes in pre-order or in post-order. The events of both
phases are a bracketed writing of the program, from which it can be read again. -/

namespace ParenCall

namespace Tree

theorem exists_events_eq_cons (t parent : Tree) :
    ∃ inside, events ⟨true, true⟩ parent t = Event.ofNode .enter (t, parent) :: inside := by
  rw [events_eq, recordAround_both]
  exact ⟨_, rfl⟩

/-- The event of one step, told from the node that its path leads to. -/
def eventAt? (parent root : Tree) (step : Phase × List Nat) : Option Event :=
  (locate? parent root step.2).map (Event.ofNode step.1)

theorem events_eq_map_tour (parent root : Tree) :
    (events ⟨true, true⟩ parent root).map some = root.tour.map (eventAt? parent root) := by
  induction root using Tree.induction generalizing parent with
  | node root ih =>
    have hchild (x : Tree × Nat) (hx : x ∈ root.children.zipIdx) :
        (events ⟨true, true⟩ root x.1).map some =
          (x.1.tour.map (under x.2)).map (eventAt? parent root) := by
      have hposition : root.children[x.2]? = some x.1 := List.mk_mem_zipIdx_iff_getElem?.mp hx
      rw [ih x.1 (List.fst_mem_of_mem_zipIdx hx), List.map_map]
      refine List.map_congr_left fun step _ => ?_
      simp [eventAt?, under, locate?, hposition]
    have hbelow : (root.children.flatMap (events ⟨true, true⟩ root)).map some =
        root.toursBelow.map (eventAt? parent root) := by
      rw [toursBelow, List.map_flatMap, List.map_flatMap, ← List.flatMap_congr hchild]
      conv_lhs => rw [← List.zipIdx_map_fst 0 root.children, List.flatMap_map]
    rw [events_eq, recordAround_both, tour_eq]
    simp [hbelow, eventAt?, locate?]

theorem record_eq_filter (hooks : Hooks) (phase : Phase) (node parent : Tree) :
    hooks.record phase node parent =
      (Hooks.record ⟨true, true⟩ phase node parent).filter fun e => hooks.wants e.phase := by
  obtain ⟨enter, exit⟩ := hooks
  cases phase <;> cases enter <;> cases exit <;> rfl

/-- Hooks that want fewer phases are told of those, in the same order. -/
theorem events_eq_filter (hooks : Hooks) (parent root : Tree) :
    events hooks parent root =
      (events ⟨true, true⟩ parent root).filter fun e => hooks.wants e.phase := by
  induction root using Tree.induction generalizing parent with
  | node root ih =>
    rw [events_eq, events_eq ⟨true, true⟩, Visitor.recordAround, Visitor.recordAround,
      List.filter_append, List.filter_append, ← record_eq_filter, ← record_eq_filter,
      List.filter_flatMap]
    rw [List.flatMap_congr fun child hc => ih child hc root]

theorem events_one_phase {hooks : Hooks} {phase : Phase}
    (h : ∀ x, hooks.wants x = decide (x = phase)) (parent root : Tree) :
    events hooks parent root =
      (events ⟨true, true⟩ parent root).filter fun e => e.phase = phase := by
  rw [events_eq_filter]
  simp only [h]

theorem events_entering (parent root : Tree) :
    events ⟨true, false⟩ parent root = (family parent root).map (Event.ofNode .enter) := by
  induction root using Tree.induction generalizing parent with
  | node root ih =>
    rw [events_eq, family_eq, List.map_cons, List.map_flatMap, recordAround_entering,
      List.flatMap_congr fun child hc => ih child hc root]

theorem events_exiting (parent root : Tree) :
    events ⟨false, true⟩ parent root = (postorder parent root).map (Event.ofNode .exit) := by
  induction root using Tree.induction generalizing parent with
  | node root ih =>
    rw [events_eq, postorder_eq, List.map_append, List.map_flatMap, recordAround_exiting,
      List.flatMap_congr fun child hc => ih child hc root, List.map_singleton]

end Tree

namespace Source

/-! ## Reading a program off its events -/

/-- The events of the expression, in front of any others, tell which it is. -/
def Expr.ReadsOff (e : Expr) : Prop :=
  ∀ {d : Expr} {parent parent' : Tree} {rest rest' : List Event},
    Tree.events ⟨true, true⟩ parent e.tree ++ rest =
      Tree.events ⟨true, true⟩ parent' d.tree ++ rest' → e = d ∧ rest = rest'

theorem Expr.events_literal (l : Literal) (parent : Tree) :
    Tree.events ⟨true, true⟩ parent (Expr.literal l).tree =
      [Event.ofNode .enter (.literal .source l, parent),
        Event.ofNode .exit (.literal .source l, parent)] := by
  rw [Tree.events_eq, Tree.recordAround_both]
  rfl

theorem Expr.events_call (name : String) (params : List Expr) (parent : Tree) :
    Tree.events ⟨true, true⟩ parent (Expr.call name params).tree =
      Event.ofNode .enter (.call name (params.map Expr.tree), parent) ::
        (params.flatMap
            (fun e => Tree.events ⟨true, true⟩ (.call name (params.map Expr.tree)) e.tree) ++
          [Event.ofNode .exit (.call name (params.map Expr.tree), parent)]) := by
  rw [Tree.events_eq, Tree.recordAround_both, Expr.tree_call, Tree.children, List.flatMap_map]

/-- A list of expressions ends where a node is left that was entered before it. -/
theorem Expr.readsOff_all {es ds : List Expr} {parent parent' : Tree} {x y : Tree × Tree}
    {rest rest' : List Event} (hes : ∀ e ∈ es, e.ReadsOff)
    (h : es.flatMap (fun e => Tree.events ⟨true, true⟩ parent e.tree) ++
        Event.ofNode .exit x :: rest =
      ds.flatMap (fun d => Tree.events ⟨true, true⟩ parent' d.tree) ++
        Event.ofNode .exit y :: rest') :
    es = ds ∧ rest = rest' := by
  induction es generalizing ds with
  | nil =>
    cases ds with
    | nil => exact ⟨rfl, (List.cons.inj h).2⟩
    | cons d ds =>
      -- an event that leaves a node is not one that enters the next
      obtain ⟨inside, hd⟩ := Tree.exists_events_eq_cons d.tree parent'
      rw [List.flatMap_cons, hd] at h
      cases congrArg Event.phase (List.cons.inj h).1
  | cons e es ih =>
    cases ds with
    | nil =>
      obtain ⟨inside, he⟩ := Tree.exists_events_eq_cons e.tree parent
      rw [List.flatMap_cons, he] at h
      cases congrArg Event.phase (List.cons.inj h).1
    | cons d ds =>
      rw [List.flatMap_cons, List.flatMap_cons, List.append_assoc, List.append_assoc] at h
      obtain ⟨rfl, hothers⟩ := hes e List.mem_cons_self h
      obtain ⟨rfl, hrest⟩ := ih (fun c hc => hes c (List.mem_cons_of_mem _ hc)) hothers
      exact ⟨rfl, hrest⟩

theorem literal_eq_of_label {l m : Literal} {language : Language}
    (hlabel : (Tree.literal language l).label = (Tree.literal language m).label)
    (hvalue : l.value = m.value) : l = m := by
  obtain ⟨k, v⟩ := l
  obtain ⟨k', v'⟩ := m
  cases k <;> cases k' <;> simp_all [Tree.label]

theorem label_ne_call (l : Literal) (language : Language) :
    (Tree.literal language l).label ≠ "CallExpression" := by
  obtain ⟨k, v⟩ := l
  cases k <;> simp [Tree.label]

theorem Expr.readsOff (e : Expr) : e.ReadsOff := by
  induction e with
  | literal l =>
    intro d parent parent' rest rest' h
    rw [Expr.events_literal] at h
    cases d with
    | literal m =>
      rw [Expr.events_literal] at h
      obtain ⟨hhead, htail⟩ := List.cons.inj h
      have hvalue : some l.value = some m.value := congrArg Event.text hhead
      exact ⟨congrArg _ (literal_eq_of_label (congrArg Event.kind hhead) (Option.some.inj hvalue)),
        (List.cons.inj htail).2⟩
    | call name params =>
      rw [Expr.events_call] at h
      exact absurd (congrArg Event.kind (List.cons.inj h).1) (label_ne_call l .source)
  | call name params ih =>
    intro d parent parent' rest rest' h
    rw [Expr.events_call] at h
    cases d with
    | literal m =>
      rw [Expr.events_literal] at h
      exact absurd (congrArg Event.kind (List.cons.inj h).1).symm (label_ne_call m .source)
    | call name' params' =>
      simp only [Expr.events_call, List.cons_append, List.append_assoc, List.nil_append] at h
      obtain ⟨hhead, htail⟩ := List.cons.inj h
      have hname : some name = some name' := congrArg Event.text hhead
      obtain ⟨rfl, hrest⟩ := Expr.readsOff_all ih htail
      cases hname
      exact ⟨rfl, hrest⟩

theorem Program.eq_of_events_eq {p q : Program} {parent parent' : Tree}
    (h : Tree.events ⟨true, true⟩ parent p.tree = Tree.events ⟨true, true⟩ parent' q.tree) :
    p = q := by
  rw [Tree.events_eq, Tree.events_eq _ _ q.tree, Tree.recordAround_both, Tree.recordAround_both,
    p.children_tree, q.children_tree, List.flatMap_map, List.flatMap_map] at h
  have hbody := Expr.readsOff_all (fun e _ => e.readsOff) (List.cons.inj h).2
  exact congrArg Program.mk hbody.1

end Source

namespace Lowering

/-- The events of lowering a program, with both hooks, are a tour of its nodes,
each with its parent. With one hook they are those of that phase, which list the
nodes in pre-order or post-order. No other program has the same events. -/
theorem events_serialize_program (p : Source.Program) (parent : Tree) :
    (∃ steps, Tree.IsTour parent p.tree steps ∧
      (lower ⟨true, true⟩ p.tree parent).1.map some = steps.map fun (phase, path) =>
        (Tree.locate? parent p.tree path).map (Event.ofNode phase)) ∧
    (lower ⟨true, false⟩ p.tree parent).1 =
      (lower ⟨true, true⟩ p.tree parent).1.filter (fun e => e.phase = .enter) ∧
    (lower ⟨true, false⟩ p.tree parent).1 =
      (Tree.family parent p.tree).map (Event.ofNode .enter) ∧
    (lower ⟨false, true⟩ p.tree parent).1 =
      (lower ⟨true, true⟩ p.tree parent).1.filter (fun e => e.phase = .exit) ∧
    (lower ⟨false, true⟩ p.tree parent).1 =
      (Tree.postorder parent p.tree).map (Event.ofNode .exit) ∧
    ∀ (q : Source.Program) (parent' : Tree),
      (lower ⟨true, true⟩ q.tree parent').1 = (lower ⟨true, true⟩ p.tree parent).1 → q = p := by
  simp only [lower_program_eq]
  refine ⟨⟨p.tree.tour, Tree.isTour_tour parent p.tree, Tree.events_eq_map_tour parent p.tree⟩,
    ?_, Tree.events_entering parent p.tree, ?_, Tree.events_exiting parent p.tree,
    fun q parent' h => Source.Program.eq_of_events_eq h⟩
  · exact Tree.events_one_phase (by rintro (_ | _) <;> rfl) parent p.tree
  · exact Tree.events_one_phase (by rintro (_ | _) <;> rfl) parent p.tree

/-- What is entered, and below what kind of node, is the same in `(f (g (h)))` and
in `(f (g) (h))`. What is left in between tells them apart. -/
theorem events_serialize_program_nesting :
    let deep : Source.Program := ⟨[.call "f" [.call "g" [.call "h" []]]]⟩
    let wide : Source.Program := ⟨[.call "f" [.call "g" [], .call "h" []]]⟩
    (lower ⟨true, false⟩ deep.tree).1 = (lower ⟨true, false⟩ wide.tree).1 ∧
      (lower ⟨true, true⟩ deep.tree).1 ≠ (lower ⟨true, true⟩ wide.tree).1 := by
  intro deep wide
  have hentered : (lower ⟨true, false⟩ deep.tree).1 = (lower ⟨true, false⟩ wide.tree).1 := by
    rw [lower_program_eq, lower_program_eq]
    rfl
  obtain ⟨_, _, _, _, _, hread⟩ := events_serialize_program wide .absent
  have hne : deep ≠ wide := by decide
  exact ⟨hentered, fun h => hne (hread deep .absent h)⟩

end Lowering

end ParenCall
