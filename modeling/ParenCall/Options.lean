import ParenCall.Source.Cursor

/-! What can be chosen for one run. -/

namespace ParenCall

structure Options where
  /-- Keep a log of what every stage does. -/
  verbose : Bool := false
  /-- Take any token but a closing parenthesis as a callee. -/
  anyCallee : Bool := false
deriving DecidableEq, Repr

def Options.calleeRule (o : Options) : Source.CalleeRule := .ofPermissive o.anyCallee

end ParenCall
