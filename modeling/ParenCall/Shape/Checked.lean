import ParenCall.Double
import ParenCall.Issue
import ParenCall.Text.Numeral
import ParenCall.Value

/-! Checking plain data. A check gives what the data means or every issue with
it, in the order of the fields and of the items in a list. Fields nobody asked
for are passed over. -/

namespace ParenCall

abbrev Checked (α : Type) := Except (List Issue) α

namespace Checked

variable {α β γ : Type}

def issue (kind : Issue.Kind) : Checked α := .error [⟨[], kind⟩]

/-- The same check one step further in. -/
def under (step : Step) (c : Checked α) : Checked α := c.mapError (·.map (Issue.under step))

/-- Both checks are made, also when the first one fails. -/
def both (f : α → β → γ) : Checked α → Checked β → Checked γ
  | .ok a, .ok b => .ok (f a b)
  | .ok _, .error right => .error right
  | .error left, .ok _ => .error left
  | .error left, .error right => .error (left ++ right)

/-- Checks the items of a list, each under its position, counted from `i`. -/
def each (check : Value → Checked α) (i : Nat) : List Value → Checked (List α)
  | [] => .ok []
  | item :: items => both List.cons (under (.index i) (check item)) (each check (i + 1) items)

end Checked

namespace Shape

open Checked

variable {α : Type}

abbrev Fields := List (String × Value)

def record (check : Fields → Checked α) : Value → Checked α
  | .object fields => check fields
  | _ => issue .notRecord

def field (name : String) (ifAbsent : Checked α) (check : Value → Checked α) (fields : Fields) :
    Checked α :=
  under (.field name) <|
    match fields.lookup name with
    | some v => check v
    | none => ifAbsent

def required (name : String) (check : Value → Checked α) : Fields → Checked α :=
  field name (issue .missing) check

def optional (name : String) (default : α) (check : Value → Checked α) : Fields → Checked α :=
  field name (.ok default) check

def listOf (check : Value → Checked α) : Value → Checked (List α)
  | .list items => each check 0 items
  | _ => issue .notList

def text : Value → Checked String
  | .text s => .ok s
  | _ => issue .notText

/-- One of a few fixed texts, read by `ofLabel?`. -/
def constant (ofLabel? : String → Option α) : Value → Checked α
  | .text s =>
    match ofLabel? s with
    | some a => .ok a
    | none => issue .otherConstant
  | _ => issue .otherConstant

/-- The field that names what a record is. It may be left out. -/
def typeField (label : String) : Fields → Checked Unit :=
  optional "type" () (constant fun s => if s = label then some () else none)

/-- The name of what a record is, where it decides how to check the rest. It
may not be left out there. -/
def tag (ofLabel? : String → Option α) (fields : Fields) : Checked α :=
  match fields.lookup "type" with
  | none => issue .tagMissing
  | some (.text s) =>
    match ofLabel? s with
    | some a => .ok a
    | none => issue .tagUnknown
  | some _ => issue .tagUnknown

/-- Integers that are as good as a word of 64 bits. -/
def IsWord (n : Int) : Prop := -Int.pow 2 63 ≤ n ∧ n < Int.pow 2 63

instance (n : Int) : Decidable (IsWord n) := inferInstanceAs (Decidable (_ ∧ _))

/-- The integer that a number with a fraction of zero stands for. It has to be
a word, and the least word is out of reach. -/
def intOfDecimal (mantissa : Int) (places : Nat) : Checked Int :=
  match Double.ofDecimal mantissa places with
  | .whole n => if IsWord n ∧ n ≠ -Int.pow 2 63 then .ok n else issue .oversizedInt
  | .fractional => issue .fractionalInt
  | .infinite => issue .infiniteInt

def intOfText (s : String) : Checked Int :=
  match Text.Numeral.read s with
  | .integer n => .ok n
  | .malformed => issue .unreadableInt
  | .tooLong => issue .oversizedInt

/-- Integers may come as flags, as numbers without a fraction and as text. -/
def int : Value → Checked Int
  | .int n => .ok n
  | .bool b => .ok (if b then 1 else 0)
  | .decimal mantissa places => intOfDecimal mantissa places
  | .text s => intOfText s
  | .null | .list _ | .object _ => issue .notInt

def trueWords : List String := ["1", "on", "t", "true", "y", "yes"]

def falseWords : List String := ["0", "off", "f", "false", "n", "no"]

/-- Only words are taken for flags that went wrong. -/
def flagOfInt (n : Int) : Checked Bool :=
  if n = 0 then .ok false
  else if n = 1 then .ok true
  else if IsWord n then issue .unreadableFlag
  else issue .notFlag

/-- Flags may come as the numbers 0 and 1 and as a few words, whose case does
not matter. -/
def flag : Value → Checked Bool
  | .bool b => .ok b
  | .int n => flagOfInt n
  | .decimal mantissa places =>
    match intOfDecimal mantissa places with
    | .ok n => flagOfInt n
    | .error _ => issue .notFlag
  | .text s =>
    let word := String.ofList (s.toList.map Char.toLower)
    if trueWords.contains word then .ok true
    else if falseWords.contains word then .ok false
    else issue .unreadableFlag
  | .null | .list _ | .object _ => issue .notFlag

end Shape

end ParenCall
