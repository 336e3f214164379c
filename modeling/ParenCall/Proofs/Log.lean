import ParenCall.Proofs.Compilation
import ParenCall.Proofs.Nodes

/-! # The log of a run

Keeping a log changes nothing else: the hooks of a verbose run only watch the
walk, and every stage goes on from what the one before it made. The log of a run
that gets through has a line for the tokens, one for the program, one for every
node of the program as it is entered, and one for the output. A run that ends
early has the lines of the stages that it completed. -/

namespace ParenCall

/-! ## Hooks only watch -/

theorem Lowering.lower_quiet (hooks : Hooks) (node parent : Tree) :
    lower ⟨false, false⟩ node parent = ([], (lower hooks node parent).2) := by
  rw [lower, lower, Visitor.walk_eq_visit, Visitor.walk_eq_visit]
  exact Visitor.visit_quiet ..

namespace Pipeline

theorem result_trace (hooks : Hooks) (rule : Source.CalleeRule) (text : String) :
    (trace hooks rule text).result = (trace ⟨false, false⟩ rule text).result := by
  unfold trace
  cases tokenize text with
  | error f => rfl
  | ok ts =>
    cases hp : Source.parse rule ts with
    | error f => simp only [hp]
    | ok p =>
      simp only [hp, Lowering.lower_quiet hooks]
      rcases Lowering.lower hooks p.tree with ⟨events, f | target⟩
      · rfl
      · cases hr : Rendering.render target.tree <;> simp only [hr]

theorem result_run (options : Options) (text : String) :
    (run options text).result = (run { options with verbose := false } text).result :=
  result_trace ..

end Pipeline

theorem compile_verbose (options : Options) (text : String) :
    compile options text = compile { options with verbose := false } text := by
  rw [compile, Pipeline.result_run]
  rfl

/-! ## The nodes that are entered -/

namespace Source

/-- The line on a node of one kind below a parent of another. -/
def entry (kind parent : String) : String :=
  "Transforming " ++ kind ++ " (parent: " ++ parent ++ ")"

/-- The lines on an expression and on all that is in it. -/
def Expr.entries : Expr → (parent : String) → List String :=
  Expr.fold
    (fun
      | ⟨.number, _⟩, parent => [entry "NumberLiteral" parent]
      | ⟨.string, _⟩, parent => [entry "StringLiteral" parent])
    fun _ params parent =>
      entry "CallExpression" parent :: params.flatMap fun entries => entries "CallExpression"

def Program.entries (p : Program) : List String :=
  entry "Program" "-" :: p.body.flatMap fun e => e.entries "Program"

theorem Expr.entries_call (name : String) (params : List Expr) (parent : String) :
    (Expr.call name params).entries parent =
      entry "CallExpression" parent :: params.flatMap fun e => e.entries "CallExpression" := by
  rw [Expr.entries, Expr.fold_call, List.flatMap_map]

theorem enteredLine_ofNode (node parent : Tree) :
    Pipeline.enteredLine (.ofNode .enter (node, parent)) =
      entry node.label (parent.label?.getD "-") := rfl

theorem Expr.entries_eq_map {parent : Tree} {label : String} (hparent : parent.label? = some label)
    (e : Expr) :
    (Tree.events ⟨true, false⟩ parent e.tree).map Pipeline.enteredLine = e.entries label := by
  induction e generalizing parent label with
  | literal l =>
    obtain ⟨kind, value⟩ := l
    rw [Tree.events_eq, Tree.recordAround_entering, List.map_cons, enteredLine_ofNode, hparent]
    cases kind <;> rfl
  | call name params ih =>
    have hparams := List.flatMap_congr fun e he =>
      @ih e he (Expr.call name params).tree "CallExpression" (by rw [Expr.tree_call]; rfl)
    rw [Expr.tree_call] at hparams
    rw [Expr.entries_call, ← hparams, Expr.tree_call, Tree.events_eq, Tree.recordAround_entering,
      List.map_cons, enteredLine_ofNode, hparent, Tree.children, List.flatMap_map,
      List.map_flatMap]
    rfl

theorem Program.entries_eq_map (p : Program) :
    (Tree.events ⟨true, false⟩ .absent p.tree).map Pipeline.enteredLine = p.entries := by
  have hbody := List.flatMap_congr fun e (_ : e ∈ p.body) =>
    e.entries_eq_map (show p.tree.label? = some "Program" from rfl)
  rw [Program.entries, ← hbody, Tree.events_eq, Tree.recordAround_entering, List.map_cons,
    enteredLine_ofNode, p.children_tree, List.flatMap_map, List.map_flatMap]
  rfl

open ParenCall.Tree (isLiteral isCall)

theorem Program.length_entries (p : Program) :
    p.entries.length = p.tree.nodes.countP isLiteral + p.tree.nodes.countP isCall + 1 := by
  have hliteral (l : Literal) : ((Expr.literal l).entries "CallExpression").length = 1 := by
    obtain ⟨kind, value⟩ := l
    cases kind <;> rfl
  have hcall (name : String) (params : List Expr) :
      ((Expr.call name params).entries "CallExpression").length =
        1 + (params.flatMap fun e => e.entries "CallExpression").length := by
    rw [Expr.entries_call, List.length_cons, Nat.add_comm]
  -- how many lines there are does not depend on the parent that they name
  have hparent (e : Expr) : (e.entries "Program").length = (e.entries "CallExpression").length := by
    cases e with
    | literal l =>
      obtain ⟨kind, value⟩ := l
      cases kind <;> rfl
    | call name params => rw [Expr.entries_call, Expr.entries_call, List.length_cons,
        List.length_cons]
  have hbody := p.length_flatMap_eq (fun e => e.entries "CallExpression") hliteral hcall
  rw [Nat.one_mul, Nat.one_mul] at hbody
  rw [Program.entries, List.length_cons, ← hbody, List.length_flatMap, List.length_flatMap]
  simp only [hparent]

end Source

/-! ## The log -/

theorem Pipeline.log_run_of_parse_ok {anyCallee : Bool} {text : String} {ts : List Token}
    {p : Source.Program} (ht : tokenize text = .ok ts)
    (hp : Source.parse (.ofPermissive anyCallee) ts = .ok p) :
    (run ⟨true, anyCallee⟩ text).log =
      lexedLine ts :: parsedLine p :: p.entries ++ [renderedLine p.written] := by
  have hlog := congrArg Outcome.log (trace_of_parse_ok ht hp ⟨true, false⟩)
  rw [p.entries_eq_map] at hlog
  exact hlog

open ParenCall.Tree (isLiteral isCall)

/-- A verbose run ends as a quiet one does, and its log tells exactly what the
stages did: how many tokens and top-level expressions there are, every node of
the program in order with its parent, and how long the output is. -/
theorem verbose_log_exact (anyCallee : Bool) (source : String) :
    compile ⟨true, anyCallee⟩ source = compile ⟨false, anyCallee⟩ source ∧
    (Pipeline.run ⟨true, anyCallee⟩ source).result =
      (Pipeline.run ⟨false, anyCallee⟩ source).result ∧
    (Pipeline.run ⟨false, anyCallee⟩ source).log = [] ∧
    match tokenize source with
    | .error _ => (Pipeline.run ⟨true, anyCallee⟩ source).log = []
    | .ok ts =>
      match Source.parse (.ofPermissive anyCallee) ts with
      | .error _ =>
        (Pipeline.run ⟨true, anyCallee⟩ source).log =
          ["Lexed " ++ toString ts.length ++ " tokens"]
      | .ok p =>
        ts.length = p.tree.nodes.countP isLiteral + 3 * p.tree.nodes.countP isCall ∧
        ∃ output, compile ⟨true, anyCallee⟩ source = .ok output ∧
          (Pipeline.run ⟨true, anyCallee⟩ source).log =
            ["Lexed " ++ toString ts.length ++ " tokens",
              "Parsed " ++ toString p.body.length ++ " top-level expressions"] ++
            p.entries ++
            ["Generated " ++ toString output.length ++ " characters"] ∧
          (Pipeline.run ⟨true, anyCallee⟩ source).log.length =
            p.tree.nodes.countP isLiteral + p.tree.nodes.countP isCall + 4 := by
  refine ⟨compile_verbose .., Pipeline.result_run .., rfl, ?_⟩
  cases ht : tokenize source with
  | error f =>
    show (Pipeline.trace _ _ source).log = []
    rw [Pipeline.trace, ht]
  | ok ts =>
    cases hp : Source.parse (.ofPermissive anyCallee) ts with
    | error f =>
      simp only [hp]
      show (Pipeline.trace _ (.ofPermissive anyCallee) source).log = [Pipeline.lexedLine ts]
      simp only [Pipeline.trace, ht, hp]
    | ok p =>
      have hlog := Pipeline.log_run_of_parse_ok ht hp
      simp only [hp]
      refine ⟨Source.length_of_parse hp, p.written, compile_of_parse_ok ht hp, hlog, ?_⟩
      rw [hlog]
      simp only [List.cons_append, List.length_cons, List.length_append, List.length_nil,
        p.length_entries]

end ParenCall
