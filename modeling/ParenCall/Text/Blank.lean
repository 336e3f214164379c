import ParenCall.Text.Ranges

/-! Blank characters. They separate tokens and are trimmed from both ends of a
quoted source line. The set is wider than `Char.isWhitespace`: it has the form
feed, the four information separators and the spaces of other scripts. -/

namespace ParenCall.Text

def blanks : Ranges :=
  [(0x9, 0xd), (0x1c, 0x20), (0x85, 0x85), (0xa0, 0xa0), (0x1680, 0x1680), (0x2000, 0x200a),
   (0x2028, 0x2029), (0x202f, 0x202f), (0x205f, 0x205f), (0x3000, 0x3000)]

def isBlank (c : Char) : Bool := blanks.has c

/-- Leaves out the characters at both ends that satisfy `p`. -/
def trimBy (p : Char → Bool) (cs : List Char) : List Char :=
  ((cs.dropWhile p).reverse.dropWhile p).reverse

def trim : List Char → List Char := trimBy isBlank

end ParenCall.Text
