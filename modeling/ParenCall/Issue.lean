/-! Issues: what is wrong with a piece of data that should have a given shape,
and where in it. -/

namespace ParenCall

/-- One step into nested data. -/
inductive Step where
  | field (name : String)
  | index (position : Nat)
deriving DecidableEq, Repr

inductive Issue.Kind where
  | missing
  | notRecord
  | notText
  | otherConstant
  | notList
  | notTagged
  | tagMissing
  | tagUnknown
  | fractionalInt
  | unreadableInt
  | oversizedInt
  | infiniteInt
  | notInt
  | unreadableFlag
  | notFlag
  | frozen
  | tooDeep
deriving DecidableEq, Repr

structure Issue where
  path : List Step
  kind : Issue.Kind
deriving DecidableEq, Repr

def Issue.under (step : Step) (i : Issue) : Issue := { i with path := step :: i.path }

end ParenCall
