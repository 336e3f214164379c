import ParenCall.Text.Printable

/-! The quoted form in which messages show a text. Apostrophes enclose it, or
double quotes when the text has an apostrophe and no double quote. Inside, the
enclosing mark and the backslash are escaped, tab and the two line ends have
letters of their own, and an unprintable character is written by its code point
in two, four or eight hexadecimal digits, whichever is the first to fit. -/

namespace ParenCall.Text

def hexDigits (width n : Nat) : List Char :=
  let ds := Nat.toDigits 16 n
  List.replicate (width - ds.length) '0' ++ ds

def escapeCode (n : Nat) : List Char :=
  if n < 0x100 then '\\' :: 'x' :: hexDigits 2 n
  else if n < 0x10000 then '\\' :: 'u' :: hexDigits 4 n
  else '\\' :: 'U' :: hexDigits 8 n

def escapeChar (mark c : Char) : List Char :=
  if c = mark ∨ c = '\\' then ['\\', c]
  else if c = '\t' then ['\\', 't']
  else if c = '\n' then ['\\', 'n']
  else if c = '\r' then ['\\', 'r']
  else if isPrintable c then [c]
  else escapeCode c.toNat

def enclosingMark (cs : List Char) : Char :=
  if cs.contains '\'' && !cs.contains '"' then '"' else '\''

def quoted (text : String) : String :=
  let cs := text.toList
  let mark := enclosingMark cs
  String.ofList (mark :: cs.flatMap (escapeChar mark) ++ [mark])

end ParenCall.Text
