import Mathlib.Algebra.Ring.Nat
import Mathlib.Data.List.Perm.Basic
import Mathlib.Tactic.SplitIfs
import ParenCall.Proofs.Decoding
import ParenCall.Proofs.Lines
import ParenCall.Proofs.Nodes

/-! # Where the characters of the output come from

A node of a program writes its own text and some marks around it, and the nodes
below it write the rest. Up to order, then, what is written for an expression is
what each of its nodes writes, and a body adds a semicolon behind each call and a
newline between two items. How often a character occurs in the output is
therefore a sum over the nodes of the program. -/

namespace ParenCall

/-- Up to order, a separated list is its items and a separator for each gap. -/
theorem intercalate_map_perm {α : Type} (sep : List Char) (f : α → List Char) (xs : List α) :
    (sep.intercalate (xs.map f)).Perm
      (xs.flatMap f ++ (List.replicate (xs.length - 1) sep).flatten) := by
  cases xs with
  | nil => simp
  | cons x xs =>
    have hgaps : (List.replicate xs.length sep).flatten = xs.flatMap fun _ => sep := by
      rw [← List.map_const', List.flatMap]
    rw [intercalate_map_cons, List.flatMap_cons, List.append_assoc, List.length_cons,
      Nat.add_sub_cancel, hgaps]
    refine List.Perm.append_left _ ?_
    exact (List.flatMap_append_perm xs (fun _ => sep) f).symm.trans List.perm_append_comm

theorem count_flatten_replicate (c : Char) (n : Nat) (sep : List Char) :
    (List.replicate n sep).flatten.count c = n * sep.count c := by
  simp [List.count_flatten]

theorem count_pair {a b : Char} (h : a ≠ b) (c : Char) :
    [a, b].count c = if c = a ∨ c = b then 1 else 0 := by
  by_cases ha : c = a
  · subst ha
    simp [h.symm]
  · by_cases hb : c = b
    · subst hb
      simp [h]
    · simp [ha, hb, Ne.symm ha, Ne.symm hb]

/-! ## What a node writes itself -/

namespace Tree

def isString : Tree → Bool
  | .literal _ l => l.kind == .string
  | _ => false

/-- The number of places between two parameters of a call. -/
def gaps : Tree → Nat
  | .call _ params => params.length - 1
  | _ => 0

/-- The characters of the name or value of a node. -/
def ownText (t : Tree) : List Char := (t.ownText?.getD "").toList

/-- What a node writes around its text and between its parameters. -/
def marks (t : Tree) : List Char :=
  if t.isCall then '(' :: ')' :: (List.replicate t.gaps [',', ' ']).flatten
  else if t.isString then ['"', '"']
  else []

theorem marks_call (name : String) (params : List Tree) :
    (call name params).marks =
      ['(', ')'] ++ (List.replicate (params.length - 1) [',', ' ']).flatten := rfl

theorem count_marks (t : Tree) (c : Char) :
    t.marks.count c =
      (if c = '(' ∨ c = ')' then (if t.isCall then 1 else 0) else 0) +
      (if c = '"' then 2 * (if t.isString then 1 else 0) else 0) +
      (if c = ',' ∨ c = ' ' then t.gaps else 0) := by
  cases t with
  | call name params =>
    rw [marks_call, List.count_append, count_pair (by decide), count_flatten_replicate,
      count_pair (by decide)]
    simp [isCall, isString, gaps]
  | literal language l =>
    obtain ⟨kind, value⟩ := l
    cases kind with
    | number => simp [marks, isCall, isString, gaps]
    | string =>
      by_cases hc : c = '"'
      · simp [marks, isCall, isString, hc]
      · simp [marks, isCall, isString, gaps, hc, Ne.symm hc]
  | _ => simp [marks, isCall, isString, gaps]

theorem count_flatMap_marks (ts : List Tree) (c : Char) :
    (ts.flatMap marks).count c =
      (if c = '(' ∨ c = ')' then ts.countP isCall else 0) +
      (if c = '"' then 2 * ts.countP isString else 0) +
      (if c = ',' ∨ c = ' ' then (ts.map gaps).sum else 0) := by
  induction ts with
  | nil => simp
  | cons t ts ih =>
    rw [List.flatMap_cons, List.count_append, count_marks, ih, List.countP_cons, List.countP_cons,
      List.map_cons, List.sum_cons]
    split_ifs <;> omega

end Tree

namespace Source

/-! ## Expressions and programs -/

/-- Up to order, an expression is written as what each of its nodes writes. -/
theorem Expr.chars_perm (e : Expr) :
    e.chars.Perm (e.tree.nodes.flatMap fun t => t.ownText ++ t.marks) := by
  induction e with
  | literal l =>
    have hnodes : (Expr.literal l).tree.nodes = [.literal .source l] := rfl
    obtain ⟨kind, value⟩ := l
    rw [hnodes, List.flatMap_singleton]
    cases kind with
    | number =>
      rw [chars_number]
      exact .of_eq (List.append_nil _).symm
    | string =>
      rw [chars_string]
      exact List.perm_middle.symm
  | call name params ih =>
    have hbelow : (params.flatMap Expr.chars).Perm
        ((params.flatMap fun e => e.tree.nodes).flatMap fun t => t.ownText ++ t.marks) := by
      rw [List.flatMap_assoc]
      exact .flatMap_left _ ih
    have hmarks : (Expr.call name params).tree.marks =
        ['(', ')'] ++ (List.replicate (params.length - 1) [',', ' ']).flatten := by
      rw [Expr.tree_call, Tree.marks_call, List.length_map]
    have htext : (Expr.call name params).tree.ownText = name.toList := by
      rw [Expr.tree_call]
      rfl
    have hparams := (intercalate_map_perm [',', ' '] Expr.chars params).trans (hbelow.append_right _)
    rw [chars_call, nodes_call, List.flatMap_cons, htext, hmarks, List.perm_iff_count]
    intro c
    have hcount := hparams.count_eq c
    simp only [List.count_append, List.count_cons, List.count_nil] at hcount ⊢
    omega

theorem Expr.count_flatMap_itemEnd (es : List Expr) (c : Char) :
    (es.flatMap Expr.itemEnd).count c =
      if c = ';' then (es.map Expr.tree).countP Tree.isCall else 0 := by
  induction es with
  | nil => simp
  | cons e es ih =>
    rw [List.flatMap_cons, List.count_append, ih, List.map_cons, List.countP_cons]
    cases e with
    | literal l =>
      have hcall : Tree.isCall (Expr.literal l).tree = false := rfl
      simp [itemEnd, hcall]
    | call name params =>
      by_cases hc : c = ';'
      · simp [itemEnd, Expr.tree_call, Tree.isCall, hc, Nat.add_comm]
      · simp [itemEnd, hc, Ne.symm hc]

/-- A body adds what its items end with and what stands between them. -/
theorem Program.written_perm (p : Program) :
    p.written.toList.Perm
      (p.tree.nodes.flatMap Tree.ownText ++ p.tree.nodes.flatMap Tree.marks ++
        p.body.flatMap Expr.itemEnd ++ List.replicate (p.body.length - 1) '\n') := by
  have hnewlines : (List.replicate (p.body.length - 1) ['\n']).flatten =
      List.replicate (p.body.length - 1) '\n' := by
    simp
  have hnodes : (p.body.flatMap Expr.chars).Perm
      (p.tree.nodes.flatMap fun t => t.ownText ++ t.marks) := by
    rw [p.nodes_eq, List.flatMap_cons, List.flatMap_assoc]
    exact .flatMap_left _ fun e _ => e.chars_perm
  have hitems : (p.body.flatMap Expr.itemChars).Perm
      (p.body.flatMap Expr.chars ++ p.body.flatMap Expr.itemEnd) := by
    rw [funext Expr.itemChars_eq]
    exact (List.flatMap_append_perm ..).symm
  have hown := hnodes.trans (List.flatMap_append_perm _ Tree.ownText Tree.marks).symm
  rw [p.toList_written, ← hnewlines]
  exact (intercalate_map_perm ..).trans ((hitems.trans (hown.append_right _)).append_right _)

theorem Program.count_written (p : Program) (c : Char) :
    p.written.toList.count c =
      (p.tree.nodes.flatMap Tree.ownText).count c +
      (if c = '\n' then p.body.length - 1 else 0) +
      (if c = ';' then p.tree.children.countP Tree.isCall else 0) +
      (if c = '(' ∨ c = ')' then p.tree.nodes.countP Tree.isCall else 0) +
      (if c = '"' then 2 * p.tree.nodes.countP Tree.isString else 0) +
      (if c = ',' ∨ c = ' ' then (p.tree.nodes.map Tree.gaps).sum else 0) := by
  have hnewlines : (List.replicate (p.body.length - 1) '\n').count c =
      if c = '\n' then p.body.length - 1 else 0 := by
    simp only [List.count_replicate, beq_iff_eq, @eq_comm _ '\n' c]
  rw [p.written_perm.count_eq, List.count_append, List.count_append, List.count_append,
    Tree.count_flatMap_marks, Expr.count_flatMap_itemEnd, hnewlines, p.children_tree]
  omega

end Source

/-- Every character of the output comes from a name or a value or is one of the
marks: the newlines between items, the semicolons behind the calls of the body,
the parentheses of the calls, the quotes of the strings, and a comma with a space
between two parameters. So a body has a line for each item, and one more for each
newline in a name or a value. -/
theorem count_output (hooks : Hooks) (p : Source.Program) (parent : Tree) :
    ∃ target output, (Lowering.lower hooks p.tree parent).2 = .ok target ∧
      Rendering.render target.tree = .ok output ∧
      (∀ c, output.toList.count c =
        (p.tree.nodes.flatMap Tree.ownText).count c +
        (if c = '\n' then p.body.length - 1 else 0) +
        (if c = ';' then p.tree.children.countP Tree.isCall else 0) +
        (if c = '(' ∨ c = ')' then p.tree.nodes.countP Tree.isCall else 0) +
        (if c = '"' then 2 * p.tree.nodes.countP Tree.isString else 0) +
        (if c = ',' ∨ c = ' ' then (p.tree.nodes.map Tree.gaps).sum else 0)) ∧
      (p.body ≠ [] → (output.toList.splitOn '\n').length =
        p.body.length + (p.tree.nodes.flatMap Tree.ownText).count '\n') := by
  refine ⟨_, _, Lowering.lower_program hooks p parent, p.render_lowered, p.count_written, ?_⟩
  intro hbody
  have hpos := List.length_pos_iff.mpr hbody
  have hnewlines : p.written.toList.count '\n' =
      (p.tree.nodes.flatMap Tree.ownText).count '\n' + (p.body.length - 1) := by
    rw [p.count_written]
    simp
  rw [Text.length_splitOn_newline, hnewlines]
  omega

/-- Names and values may hold any of the marks themselves. -/
theorem count_output_marks_inside :
    let p : Source.Program :=
      ⟨[.call "f;\n" [.literal ⟨.string, "(\","⟩, .literal ⟨.number, "1"⟩, .call "g" []],
        .literal ⟨.string, "\n"⟩]⟩
    p.body ≠ [] ∧ ∃ target output, (Lowering.lower ⟨true, true⟩ p.tree).2 = .ok target ∧
      Rendering.render target.tree = .ok output ∧
      output.toList.count ';' = 2 ∧ output.toList.count '(' = 3 ∧ output.toList.count ')' = 2 ∧
      output.toList.count '"' = 5 ∧ output.toList.count ',' = 3 ∧
      (output.toList.splitOn '\n').length = 4 := by
  intro p
  have hbody : p.body ≠ [] := List.cons_ne_nil _ _
  obtain ⟨target, output, hlower, hrender, hcount, hlines⟩ := count_output ⟨true, true⟩ p .absent
  refine ⟨hbody, target, output, hlower, hrender, ?_⟩
  rw [hcount, hcount, hcount, hcount, hcount, hlines hbody]
  decide +kernel

end ParenCall
