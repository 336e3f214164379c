import ParenCall.Text.Quoted

/-! Message templates. A template is fixed text with named holes; each hole
shows its detail plainly or in quoted form. Filling goes from left to right,
so the first hole without a detail is the one that is reported. -/

namespace ParenCall

/-- What a message can tell besides its fixed text. -/
inductive Detail where
  | nothing
  | flag (value : Bool)
  | int (value : Int)
  | text (value : String)
deriving DecidableEq, Repr

abbrev Details := List (String × Detail)

namespace Detail

def plain : Detail → String
  | .nothing => "None"
  | .flag value => if value then "True" else "False"
  | .int value => toString value
  | .text value => value

/-- Only texts have a quoted form of their own. -/
def shown : Detail → String
  | .text value => Text.quoted value
  | d => d.plain

end Detail

inductive Piece where
  | fixed (text : String)
  | plain (name : String)
  | quoted (name : String)
deriving DecidableEq, Repr

abbrev Template := List Piece

/-- The name of a hole that has no detail. -/
structure MissingDetail where
  name : String
deriving DecidableEq, Repr

namespace Piece

def fill (details : Details) : Piece → Except MissingDetail String
  | .fixed text => .ok text
  | .plain name =>
    match details.lookup name with
    | some d => .ok d.plain
    | none => .error ⟨name⟩
  | .quoted name =>
    match details.lookup name with
    | some d => .ok d.shown
    | none => .error ⟨name⟩

def written : Piece → String
  | .fixed text => text
  | .plain name => "\x7b" ++ name ++ "\x7d"
  | .quoted name => "\x7b" ++ name ++ "!r\x7d"

end Piece

namespace Template

def fill (details : Details) : Template → Except MissingDetail String
  | [] => .ok ""
  | p :: ps => do
    let head ← p.fill details
    let tail ← fill details ps
    .ok (head ++ tail)

/-- The template itself as text, its holes in braces. -/
def written (t : Template) : String := String.join (t.map Piece.written)

end Template

end ParenCall
