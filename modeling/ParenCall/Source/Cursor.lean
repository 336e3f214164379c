import ParenCall.Source
import ParenCall.Token

/-! A cursor over a token list: the tokens already read, latest first, and
those still to come. Every move leaves the list itself as it was and says where
the cursor then stands, also when the move is refused. Opening a call takes the
token in front as the opening parenthesis, whatever it is, and keeps what it
has read even if the callee is refused. -/

namespace ParenCall.Source

/-- What may stand right after an opening parenthesis: a name only, or any
token but a closing parenthesis. -/
inductive CalleeRule where
  | strict
  | permissive
deriving DecidableEq, Repr

def CalleeRule.ofPermissive (permissive : Bool) : CalleeRule :=
  if permissive then .permissive else .strict

def CalleeRule.accepts (rule : CalleeRule) (t : Token) : Bool :=
  t.kind == .name || (rule == .permissive && !t.isClose)

inductive Fault where
  | unexpectedToken (token : Token)
  | endOfInput (offset : Option Int)
  | invalidCallee (token : Token)
deriving DecidableEq, Repr

/-- The literal that a token spells. -/
def literal? (t : Token) : Option Literal :=
  match t.kind with
  | .number => some ⟨.number, t.text⟩
  | .string => some ⟨.string, t.text⟩
  | .paren | .name => none

structure Cursor where
  done : List Token := []
  rest : List Token
deriving DecidableEq, Repr

namespace Cursor

def tokens (c : Cursor) : List Token := c.done.reverse ++ c.rest

def index (c : Cursor) : Nat := c.done.length

def atEnd (c : Cursor) : Bool := c.rest.isEmpty

def endOffset (c : Cursor) : Option Int := Token.endOf c.tokens

def current (c : Cursor) : Except Fault Token :=
  match c.rest with
  | [] => .error (.endOfInput c.endOffset)
  | t :: _ => .ok t

def advance (c : Cursor) : Except Fault Token × Cursor :=
  match c.rest with
  | [] => (.error (.endOfInput c.endOffset), c)
  | t :: rest => (.ok t, ⟨t :: c.done, rest⟩)

def readLiteral (c : Cursor) : Except Fault Literal × Cursor :=
  match c.current with
  | .error f => (.error f, c)
  | .ok t =>
    match literal? t with
    | some l => (.ok l, c.advance.2)
    | none => (.error (.unexpectedToken t), c)

def openCall (rule : CalleeRule) (c : Cursor) : Except Fault String × Cursor :=
  match c.advance with
  | (.error f, c) => (.error f, c)
  | (.ok _, c) =>
    match c.advance with
    | (.error f, c) => (.error f, c)
    | (.ok t, c) => (if rule.accepts t then .ok t.text else .error (.invalidCallee t), c)

end Cursor

inductive Move where
  | atEnd
  | current
  | advance
  | endOffset
  | readLiteral
  | openCall
deriving DecidableEq, Repr

inductive Reply where
  | flag (value : Bool)
  | token (token : Token)
  | offset (value : Option Int)
  | literal (literal : Literal)
  | callee (text : String)
deriving DecidableEq, Repr

namespace Cursor

def move (rule : CalleeRule) (c : Cursor) : Move → Except Fault Reply × Cursor
  | .atEnd => (.ok (.flag c.atEnd), c)
  | .current => (c.current.map .token, c)
  | .advance => let (r, c) := c.advance; (r.map .token, c)
  | .endOffset => (.ok (.offset c.endOffset), c)
  | .readLiteral => let (r, c) := c.readLiteral; (r.map .literal, c)
  | .openCall => let (r, c) := c.openCall rule; (r.map .callee, c)

/-- Each move with its reply and the cursor it leaves behind. -/
def run (rule : CalleeRule) (c : Cursor) : List Move → List (Except Fault Reply × Cursor)
  | [] => []
  | m :: ms =>
    let step := c.move rule m
    step :: run rule step.2 ms

theorem tokens_advance (c : Cursor) : c.advance.2.tokens = c.tokens := by
  unfold advance
  split <;> simp_all [tokens]

theorem tokens_readLiteral (c : Cursor) : c.readLiteral.2.tokens = c.tokens := by
  unfold readLiteral
  split
  · rfl
  · split
    · exact c.tokens_advance
    · rfl

theorem tokens_openCall (rule : CalleeRule) (c : Cursor) :
    (c.openCall rule).2.tokens = c.tokens := by
  have first := c.tokens_advance
  unfold openCall
  split
  · rename_i h
    rw [h] at first
    exact first
  · rename_i d h
    rw [h] at first
    have second := d.tokens_advance
    split
    · rename_i h
      rw [h] at second
      exact second.trans first
    · rename_i h
      rw [h] at second
      exact second.trans first

theorem tokens_move (rule : CalleeRule) (c : Cursor) (m : Move) :
    (c.move rule m).2.tokens = c.tokens := by
  cases m with
  | atEnd => rfl
  | current => rfl
  | advance => exact c.tokens_advance
  | endOffset => rfl
  | readLiteral => exact c.tokens_readLiteral
  | openCall => exact c.tokens_openCall rule

end Cursor

end ParenCall.Source
