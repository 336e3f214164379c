import ParenCall.Text.Blank

/-! Integers written out by people. Blanks around one do not count, except the
information separators, which are no padding. What follows the sign is first
made plain: zeros in front are skipped, together with any underscores among
them; a fraction of zeros is dropped; single underscores inside are taken out.
With the minus sign put back this has to be an integer in its usual form, with
no needless zero, and must not be too long.

Where no sign comes first, zeros are skipped in front of a minus sign as well,
so `0-1` is minus one. -/

namespace ParenCall.Text

def separators : Ranges := [(0x1c, 0x1f)]

def isPadding (c : Char) : Bool := isBlank c && !separators.has c

inductive Numeral where
  | integer (value : Int)
  | malformed
  | tooLong
deriving DecidableEq, Repr

namespace Numeral

/-- How many characters a plain integer may have, a minus sign included. -/
def lengthLimit : Nat := 4300

def digitsValue (cs : List Char) : Nat :=
  cs.foldl (fun n c => 10 * n + (c.toNat - '0'.toNat)) 0

def isFiller (c : Char) : Bool := c == '0' || c == '_'

/-- Skips zeros in front of a digit or a minus sign. Before anything else the
last of them stays. -/
def skipZeros (cs : List Char) : List Char :=
  if cs.head? = some '0' then
    let rest := cs.dropWhile isFiller
    if rest.head?.any fun c => c.isDigit || c == '-' then rest
    else (cs.takeWhile isFiller).getLast?.toList ++ rest
  else cs

/-- Drops a fraction that is made of zeros, at least one. -/
def dropFraction (cs : List Char) : List Char :=
  match cs.dropWhile (· != '.') with
  | [] | [_] => cs
  | _ :: fraction => if fraction.all (· == '0') then cs.takeWhile (· != '.') else cs

/-- Two underscores stand next to each other. -/
def hasGap : List Char → Bool
  | '_' :: '_' :: _ => true
  | _ :: cs => hasGap cs
  | [] => false

/-- Takes out underscores, if none is at an end or next to another. -/
def ungroup (cs : List Char) : List Char :=
  if cs.head? = some '_' ∨ cs.getLast? = some '_' ∨ hasGap cs then cs
  else cs.filter (· != '_')

def plain (cs : List Char) : List Char := ungroup (dropFraction (skipZeros cs))

/-- Reads a plain integer. Its length is judged before what follows the
digits. -/
def ofPlain (cs : List Char) : Numeral :=
  let (negative, unsigned) := match cs with
    | '-' :: cs => (true, cs)
    | cs => (false, cs)
  let ds := unsigned.takeWhile Char.isDigit
  if ds = [] ∨ (ds.head? = some '0' ∧ ds ≠ ['0']) then .malformed
  else if lengthLimit < ds.length + negative.toNat then .tooLong
  else if unsigned.dropWhile Char.isDigit ≠ [] then .malformed
  else .integer (if negative then -(digitsValue ds : Int) else digitsValue ds)

def ofUnpadded : List Char → Numeral
  | '+' :: '-' :: _ => .malformed
  | '+' :: cs => ofPlain (plain cs)
  | '-' :: cs => ofPlain ('-' :: plain cs)
  | cs => ofPlain (plain cs)

def read (s : String) : Numeral := ofUnpadded (trimBy isPadding s.toList)

end Numeral

end ParenCall.Text
