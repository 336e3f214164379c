import ParenCall.Text.Blank
import ParenCall.Token

/-! Lexemes and how program text is cut into them. Blanks stand between
lexemes; a number and a name are as long as they can be; a string runs to the
next quote of the sort that opened it, newlines included. Where no lexeme
starts, cutting stops and tells the character and its offset. An opening quote
with no partner is such a character. -/

namespace ParenCall

inductive Quote where
  | double
  | single
deriving DecidableEq, Repr

def Quote.mark : Quote → Char
  | .double => '"'
  | .single => '\''

def Quote.all : List Quote := [.double, .single]

def Quote.ofMark? (c : Char) : Option Quote := Quote.all.find? (·.mark == c)

theorem Quote.ofMark?_eq_some {c : Char} {q : Quote} (h : Quote.ofMark? c = some q) :
    q.mark = c := by
  simpa using List.find?_some h

inductive Lexeme where
  | openParen
  | closeParen
  | number (digits : List Char)
  | string (quote : Quote) (content : List Char)
  | name (letters : List Char)
deriving DecidableEq, Repr

namespace Lexeme

/-- The characters a lexeme takes up in the text. -/
def raw : Lexeme → List Char
  | .openParen => ['(']
  | .closeParen => [')']
  | .number digits => digits
  | .string quote content => quote.mark :: content ++ [quote.mark]
  | .name letters => letters

def kind : Lexeme → Token.Kind
  | .openParen | .closeParen => .paren
  | .number _ => .number
  | .string _ _ => .string
  | .name _ => .name

def text : Lexeme → List Char
  | .string _ content => content
  | l => l.raw

def token (l : Lexeme) (offset : Nat) : Token :=
  ⟨l.kind, String.ofList l.text, offset⟩

/-- What a lexeme is an instance of; the two parentheses are told apart. -/
inductive Terminal where
  | openParen
  | closeParen
  | number
  | string
  | name
deriving DecidableEq, Repr

def Terminal.label : Terminal → String
  | .openParen => "LPAR"
  | .closeParen => "RPAR"
  | .number => "NUMBER"
  | .string => "STRING"
  | .name => "NAME"

def Terminal.kind : Terminal → Token.Kind
  | .openParen | .closeParen => .paren
  | .number => .number
  | .string => .string
  | .name => .name

def Terminal.all : List Terminal := [.openParen, .closeParen, .number, .string, .name]

def terminal : Lexeme → Terminal
  | .openParen => .openParen
  | .closeParen => .closeParen
  | .number _ => .number
  | .string _ _ => .string
  | .name _ => .name

/-- A string with the given quote, once that quote is read. -/
def stringAfter? (quote : Quote) (cs : List Char) : Option (Lexeme × List Char) :=
  match cs.dropWhile (· != quote.mark) with
  | [] => none
  | _ :: rest => some (.string quote (cs.takeWhile (· != quote.mark)), rest)

/-- The lexeme a text starts with, and what follows it. -/
def first? : List Char → Option (Lexeme × List Char)
  | [] => none
  | c :: cs =>
    if c = '(' then some (.openParen, cs)
    else if c = ')' then some (.closeParen, cs)
    else if c.isDigit then
      some (.number (c :: cs.takeWhile Char.isDigit), cs.dropWhile Char.isDigit)
    else if c.isAlpha then
      some (.name (c :: cs.takeWhile Char.isAlpha), cs.dropWhile Char.isAlpha)
    else (Quote.ofMark? c).bind (stringAfter? · cs)

theorem stringAfter?_eq_some {quote : Quote} {cs rest : List Char} {l : Lexeme}
    (h : stringAfter? quote cs = some (l, rest)) : quote.mark :: cs = l.raw ++ rest := by
  unfold stringAfter? at h
  split at h
  · contradiction
  · rename_i c tail hdrop
    obtain ⟨rfl, rfl⟩ := by simpa using h
    have hc : (c != quote.mark) = false := by
      simpa [hdrop] using List.head?_dropWhile_not (· != quote.mark) cs
    have hc : c = quote.mark := by simpa using hc
    have hcs := List.takeWhile_append_dropWhile (p := (· != quote.mark)) (l := cs)
    rw [hdrop, hc] at hcs
    simp only [raw, List.cons_append, List.append_assoc, List.nil_append]
    rw [hcs]

theorem first?_eq_some {cs rest : List Char} {l : Lexeme} (h : first? cs = some (l, rest)) :
    cs = l.raw ++ rest := by
  cases cs with
  | nil => simp [first?] at h
  | cons c cs =>
    simp only [first?] at h
    split at h
    · obtain ⟨rfl, rfl⟩ := by simpa using h
      simp_all [raw]
    split at h
    · obtain ⟨rfl, rfl⟩ := by simpa using h
      simp_all [raw]
    split at h
    · obtain ⟨rfl, rfl⟩ := by simpa using h
      simp [raw]
    split at h
    · obtain ⟨rfl, rfl⟩ := by simpa using h
      simp [raw]
    · obtain ⟨q, hq, hl⟩ := Option.bind_eq_some_iff.mp h
      rw [← Quote.ofMark?_eq_some hq]
      exact stringAfter?_eq_some hl

theorem raw_ne_nil_of_first? {cs rest : List Char} {l : Lexeme}
    (h : first? cs = some (l, rest)) : l.raw ≠ [] := by
  cases cs with
  | nil => simp [first?] at h
  | cons c cs =>
    simp only [first?] at h
    split at h
    · obtain ⟨rfl, _⟩ := by simpa using h
      simp [raw]
    split at h
    · obtain ⟨rfl, _⟩ := by simpa using h
      simp [raw]
    split at h
    · obtain ⟨rfl, _⟩ := by simpa using h
      simp [raw]
    split at h
    · obtain ⟨rfl, _⟩ := by simpa using h
      simp [raw]
    · obtain ⟨q, _, hl⟩ := Option.bind_eq_some_iff.mp h
      unfold stringAfter? at hl
      split at hl
      · contradiction
      · obtain ⟨rfl, _⟩ := by simpa using hl
        simp [raw]

theorem length_lt_of_first? {cs rest : List Char} {l : Lexeme}
    (h : first? cs = some (l, rest)) : rest.length < cs.length := by
  have hpos := List.length_pos_iff.mpr (raw_ne_nil_of_first? h)
  rw [first?_eq_some h, List.length_append]
  omega

end Lexeme

structure Placed where
  lexeme : Lexeme
  offset : Nat
deriving DecidableEq, Repr

/-- Lexemes in text order, and the character at which cutting stopped if it
did not reach the end. -/
structure Scan where
  placed : List Placed
  stop : Option (Char × Nat)
deriving DecidableEq, Repr

def scanFrom (offset : Nat) : List Char → Scan
  | [] => ⟨[], none⟩
  | c :: cs =>
    if Text.isBlank c then scanFrom (offset + 1) cs
    else
      match _h : Lexeme.first? (c :: cs) with
      | none => ⟨[], some (c, offset)⟩
      | some (l, rest) =>
        let tail := scanFrom (offset + l.raw.length) rest
        ⟨⟨l, offset⟩ :: tail.placed, tail.stop⟩
termination_by cs => cs.length
decreasing_by
  · simp
  · exact Lexeme.length_lt_of_first? _h

def scan (source : String) : Scan := scanFrom 0 source.toList

inductive LexFault where
  | unexpectedCharacter (char : Char) (offset : Nat)
  | unterminatedString (quote : Quote) (offset : Nat)
deriving DecidableEq, Repr

def LexFault.ofStop (char : Char) (offset : Nat) : LexFault :=
  match Quote.ofMark? char with
  | some quote => .unterminatedString quote offset
  | none => .unexpectedCharacter char offset

def Placed.token (p : Placed) : Token := p.lexeme.token p.offset

def tokenize (source : String) : Except LexFault (List Token) :=
  let s := scan source
  match s.stop with
  | some (char, offset) => .error (.ofStop char offset)
  | none => .ok (s.placed.map Placed.token)

end ParenCall
