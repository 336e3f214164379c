import ParenCall.Tree

/-! Plain data: what comes in before it is known to have any shape. A number
written with a fraction is kept apart from a whole one even when the fraction
is zero. -/

namespace ParenCall

inductive Value where
  | null
  | bool (value : Bool)
  | int (value : Int)
  /-- The number `mantissa / 10 ^ places`. -/
  | decimal (mantissa : Int) (places : Nat)
  | text (value : String)
  | list (items : List Value)
  | object (fields : List (String × Value))
deriving Inhabited

namespace Value

/-- What plain data calls itself where a node is expected. -/
def kind : Value → String
  | .null => "NoneType"
  | .bool _ => "bool"
  | .int _ => "int"
  | .decimal _ _ => "float"
  | .text _ => "str"
  | .list _ => "list"
  | .object _ => "dict"

def hasField (record : Value) (name : String) : Bool :=
  match record with
  | .object fields => fields.any fun (n, _) => n = name
  | _ => false

/-- Puts a value into a field that is there. -/
def setField (record : Value) (name : String) (value : Value) : Value :=
  match record with
  | .object fields =>
    .object (fields.map fun (n, old) => if n = name then (n, value) else (n, old))
  | v => v

end Value

/-- Plain data in the place of a node. -/
def Tree.ofValue : Value → Tree
  | .null => .absent
  | v => .foreign v.kind

end ParenCall
