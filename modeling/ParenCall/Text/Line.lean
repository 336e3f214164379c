import ParenCall.Text.Blank

/-! The source line an offset lies on, found by searching for the newlines before
and behind the offset. Offsets count characters; wherever one is used, one past
the end means the end, and a negative one counts back from the end but never past
the start. -/

namespace ParenCall.Text

def position (length : Nat) (offset : Int) : Nat :=
  if offset < 0 then (length + offset).toNat else min offset.toNat length

theorem position_of_le {length n : Nat} (h : n ≤ length) : position length (n : Int) = n := by
  unfold position
  split <;> omega

/-- The first place from `start` on where the character stands. -/
def find? (c : Char) (cs : List Char) (start : Int) : Option Nat :=
  let p := position cs.length start
  ((cs.drop p).findIdx? (· == c)).map (p + ·)

/-- The last place from `start` on and before `stop` where the character stands. -/
def findLast? (c : Char) (cs : List Char) (start stop : Int) : Option Nat :=
  let p := position cs.length stop
  (((cs.take p).drop (position cs.length start)).reverse.findIdx? (· == c)).map (p - 1 - ·)

/-- The characters from `start` on and before `stop`. -/
def slice (cs : List Char) (start stop : Int) : List Char :=
  (cs.take (position cs.length stop)).drop (position cs.length start)

/-- The line starts behind the last newline before the offset. -/
def lineStart (cs : List Char) (offset : Int) : Nat :=
  match findLast? '\n' cs 0 offset with
  | some i => i + 1
  | none => 0

/-- The line ends before the first newline at the offset or behind it. -/
def lineEnd (cs : List Char) (offset : Int) : Nat := (find? '\n' cs offset).getD cs.length

/-- The trimmed line at an offset, unless nothing is left of it. -/
def lineContext (source : String) (offset : Int) : Option String :=
  let cs := source.toList
  let offset := min offset cs.length
  match trim (slice cs (lineStart cs offset) (lineEnd cs offset)) with
  | [] => none
  | line => some (String.ofList line)

end ParenCall.Text
