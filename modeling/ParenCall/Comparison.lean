import ParenCall.Pipeline

/-! Comparing two sources by what is made of them. Tokens are compared with
their offsets, so layout shows there and nowhere else. -/

namespace ParenCall

/-- Which of the things made on the way are equal for two sources. -/
structure Agreement where
  tokens : Bool
  source : Bool
  target : Bool
deriving DecidableEq, Repr

def Front.ofText (rule : Source.CalleeRule) (text : String) : Except Failure Front := do
  let tokens ← (tokenize text).mapError LexFault.failure
  let source ← (Source.parse rule tokens).mapError Source.Fault.failure
  let target ← (Lowering.lower ⟨false, false⟩ source.tree).2.mapError Lowering.Fault.failure
  .ok ⟨tokens, source, target⟩

/-- The first source is worked through before the second is looked at. -/
def Agreement.ofTexts (rule : Source.CalleeRule) (a b : String) : Except Failure Agreement := do
  let x ← Front.ofText rule a
  let y ← Front.ofText rule b
  .ok ⟨x.tokens == y.tokens, x.source == y.source, x.target == y.target⟩

end ParenCall
