import ParenCall.Source.Cursor

/-! Parsing: a cursor is driven over the tokens, and calls wait for their closing
parenthesis on a stack. At every turn the token in front decides. It closes the
innermost open call, opens another one together with the callee behind it, or has
to be a literal. What is finished goes to the innermost open call, or to the
program when none is open. A call left open is refused at the end of the list. -/

namespace ParenCall.Source

/-- A call whose closing parenthesis is still to come; the latest parameter
stands first. -/
structure OpenCall where
  name : String
  params : List Expr := []

def OpenCall.close (c : OpenCall) : Expr := .call c.name c.params.reverse

/-- What has been read: the finished part of the program, latest first, and the
open calls, innermost first. -/
structure Draft where
  body : List Expr := []
  calls : List OpenCall := []

namespace Draft

def add (d : Draft) (e : Expr) : Draft :=
  match d.calls with
  | [] => { d with body := e :: d.body }
  | c :: calls => { d with calls := { c with params := e :: c.params } :: calls }

/-- The draft with its innermost call closed, if the token does so. -/
def close? (d : Draft) (t : Token) : Option Draft :=
  match d.calls with
  | [] => none
  | c :: calls => if t.isClose then some ({ d with calls := calls }.add c.close) else none

/-- What the token in front does to the draft, and where the cursor then stands. -/
def turn (rule : CalleeRule) (d : Draft) (c : Cursor) : Except Fault (Draft × Cursor) :=
  match c.current with
  | .error f => .error f
  | .ok t =>
    match d.close? t with
    | some closed => .ok (closed, c.advance.2)
    | none =>
      if t.isOpen then
        match c.openCall rule with
        | (.error f, _) => .error f
        | (.ok name, c) => .ok ({ d with calls := { name := name } :: d.calls }, c)
      else
        match c.readLiteral with
        | (.error f, _) => .error f
        | (.ok l, c) => .ok (d.add (.literal l), c)

/-- Every turn takes a token. -/
theorem length_rest_of_turn {rule : CalleeRule} {d d' : Draft} {c c' : Cursor}
    (h : d.turn rule c = .ok (d', c')) : c'.rest.length < c.rest.length := by
  obtain ⟨done, rest⟩ := c
  match rest with
  | [] => cases h
  | [t] =>
    simp only [turn, Cursor.current, Cursor.advance, Cursor.openCall, Cursor.readLiteral] at h
    grind
  | t :: u :: rest =>
    simp only [turn, Cursor.current, Cursor.advance, Cursor.openCall, Cursor.readLiteral] at h
    grind

/-- Takes turns until no call is open and no token is left. -/
def drive (rule : CalleeRule) (d : Draft) (c : Cursor) : Except Fault Program :=
  if d.calls.isEmpty && c.atEnd then .ok ⟨d.body.reverse⟩
  else
    match _h : d.turn rule c with
    | .error f => .error f
    | .ok (d, c) => d.drive rule c
termination_by c.rest.length
decreasing_by exact length_rest_of_turn _h

end Draft

def parse (rule : CalleeRule) (ts : List Token) : Except Fault Program :=
  Draft.drive rule {} { rest := ts }

end ParenCall.Source
