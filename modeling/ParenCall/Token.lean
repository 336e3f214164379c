/-! Tokens: the units of program text. A token keeps its text without the
quotes of a string, and where it starts. Tokens may also be given by hand, so a
token need not be one that any program text yields: the text of a parenthesis
token can be anything, and an offset can be negative. -/

namespace ParenCall

inductive Token.Kind where
  | paren
  | number
  | string
  | name
deriving DecidableEq, Repr

structure Token where
  kind : Token.Kind
  text : String
  offset : Int := 0
deriving DecidableEq, Repr

namespace Token

def Kind.label : Kind → String
  | .paren => "paren"
  | .number => "number"
  | .string => "string"
  | .name => "name"

def Kind.all : List Kind := [.paren, .number, .string, .name]

def Kind.ofLabel? (label : String) : Option Kind := Kind.all.find? (·.label == label)

theorem Kind.ofLabel?_label (k : Kind) : Kind.ofLabel? k.label = some k := by
  cases k <;> decide

def isOpen (t : Token) : Bool := t.kind == .paren && t.text == "("

def isClose (t : Token) : Bool := t.kind == .paren && t.text == ")"

/-- Where a token ends, the two quotes of a string counted. -/
def endOffset (t : Token) : Int :=
  t.offset + t.text.length + (if t.kind = .string then 2 else 0)

/-- Where a token list ends. -/
def endOf (ts : List Token) : Option Int := ts.getLast?.map endOffset

end Token

end ParenCall
