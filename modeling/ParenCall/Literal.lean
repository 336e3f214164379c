/-! Literals, shared by the language that is read and the one that is written.
A literal keeps its text as it was spelled, so leading zeros survive. -/

namespace ParenCall

inductive Literal.Kind where
  | number
  | string
deriving DecidableEq, Repr

structure Literal where
  kind : Literal.Kind
  value : String
deriving DecidableEq, Repr

def Literal.Kind.label : Literal.Kind → String
  | .number => "NumberLiteral"
  | .string => "StringLiteral"

end ParenCall
