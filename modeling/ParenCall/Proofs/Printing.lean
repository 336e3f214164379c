import ParenCall.Proofs.Grammar
import ParenCall.Proofs.Partition

/-! # Programs as program text

A program can be written as text when its names and numbers are runs of letters
and digits and each of its strings leaves one of the two quotes free. Its tokens
are then written with a space between them, and cutting and parsing that text
returns the program. No other program comes out of any text: what is well formed
is told slot by slot, and the token that fills a slot was cut from the text. -/

namespace ParenCall

/-! ## Tokens as text -/

/-- The quote to put a text in: the double one unless the text holds it. -/
def quoteFor (text : String) : Quote := if '"' ∈ text.toList then .single else .double

def printToken : Token.Kind × String → String
  | (.string, text) =>
    String.singleton (quoteFor text).mark ++ text ++ String.singleton (quoteFor text).mark
  | (_, text) => text

theorem mark_quoteFor_notMem {text : String} {quote : Quote} (h : quote.mark ∉ text.toList) :
    (quoteFor text).mark ∉ text.toList := by
  unfold quoteFor
  split
  · rename_i hdouble
    cases quote with
    | double => exact absurd hdouble h
    | single => exact h
  · rename_i hdouble
    exact hdouble

theorem raw_printToken {x : Token.Kind × String} (h : WellSpelled x) :
    Token.Raw ⟨x.1, x.2, 0⟩ (printToken x).toList := by
  obtain ⟨kind, text⟩ := x
  cases kind with
  | paren => exact .paren rfl h
  | number => exact .number rfl h
  | name => exact .name rfl h
  | string =>
    obtain ⟨quote, hquote⟩ := h
    have hraw := Token.Raw.string (t := ⟨.string, text, 0⟩) rfl (quoteFor text)
      (mark_quoteFor_notMem hquote)
    simpa [printToken] using hraw

/-- A well-spelled token is printed as the characters of a lexeme. -/
theorem exists_lexeme_of_wellSpelled {x : Token.Kind × String} (h : WellSpelled x) :
    ∃ l : Lexeme, l.Proper ∧ l.spelling = x ∧ l.raw = (printToken x).toList := by
  obtain ⟨l, proper, hraw, htoken⟩ := (raw_printToken h).exists_lexeme (n := 0) rfl
  exact ⟨l, proper, (congrArg Token.spelling htoken).symm, hraw⟩

theorem exists_lexemes_of_wellSpelled {xs : List (Token.Kind × String)}
    (h : ∀ x ∈ xs, WellSpelled x) :
    ∃ ls : List Lexeme, (∀ l ∈ ls, l.Proper) ∧ ls.map Lexeme.spelling = xs ∧
      ls.map Lexeme.raw = xs.map fun x => (printToken x).toList := by
  induction xs with
  | nil => exact ⟨[], by simp, rfl, rfl⟩
  | cons x xs ih =>
    obtain ⟨l, proper, hspelling, hraw⟩ := exists_lexeme_of_wellSpelled (h x List.mem_cons_self)
    obtain ⟨ls, hls, hspellings, hraws⟩ := ih fun y hy => h y (List.mem_cons_of_mem _ hy)
    refine ⟨l :: ls, ?_, ?_, ?_⟩
    · intro m hm
      cases hm with
      | head => exact proper
      | tail _ hm => exact hls m hm
    · rw [List.map_cons, hspelling, hspellings]
    · rw [List.map_cons, hraw, hraws, List.map_cons]

/-- Lexemes with a space between them are cut where the spaces are. -/
theorem exists_cut_spaced {ls : List Lexeme} (h : ∀ l ∈ ls, l.Proper) (offset : Nat) :
    ∃ ps, Cut offset ([' '].intercalate (ls.map Lexeme.raw)) ps ∧ ps.map Placed.lexeme = ls := by
  induction ls generalizing offset with
  | nil => exact ⟨[], .done, rfl⟩
  | cons l ls ih =>
    have proper : l.Proper := h l List.mem_cons_self
    cases ls with
    | nil =>
      have hcut : Cut offset (l.raw ++ []) [⟨l, offset⟩] := .lexeme proper l.endsBefore_nil .done
      exact ⟨[⟨l, offset⟩], by simpa using hcut, rfl⟩
    | cons l' ls =>
      obtain ⟨ps, hcut, hps⟩ := ih (fun m hm => h m (List.mem_cons_of_mem _ hm))
        (offset + l.raw.length + 1)
      have hspace : Text.isBlank ' ' = true := by decide
      have hall := Cut.lexeme proper (l.endsBefore_blank hspace _) (.blank hspace hcut)
      refine ⟨⟨l, offset⟩ :: ps, ?_, by rw [List.map_cons, hps]⟩
      rw [List.map_cons, List.map_cons, List.intercalate_cons_cons, List.append_assoc,
        ← List.map_cons]
      exact hall

namespace Source

/-! ## Well-formed programs -/

inductive Expr.WellFormed : Expr → Prop
  | number {digits : String} (run : IsRun Char.isDigit digits) :
      WellFormed (.literal ⟨.number, digits⟩)
  | string {content : String} (free : '"' ∉ content.toList ∨ '\'' ∉ content.toList) :
      WellFormed (.literal ⟨.string, content⟩)
  | call {name : String} {params : List Expr} (run : IsRun Char.isAlpha name)
      (wellFormed : ∀ e ∈ params, WellFormed e) : WellFormed (.call name params)

def Program.WellFormed (p : Program) : Prop := ∀ e ∈ p.body, e.WellFormed

/-- The tokens of a program with a space between them. -/
def Program.printed (p : Program) : String :=
  String.intercalate " " (p.flatten.map printToken)

theorem wellSpelled_string {content : String} :
    WellSpelled (.string, content) ↔ '"' ∉ content.toList ∨ '\'' ∉ content.toList := by
  constructor
  · rintro ⟨quote, h⟩
    cases quote with
    | double => exact .inl h
    | single => exact .inr h
  · rintro (h | h)
    · exact ⟨.double, h⟩
    · exact ⟨.single, h⟩

theorem Expr.WellFormed.wellSpelled {e : Expr} (h : e.WellFormed) :
    ∀ s ∈ e.slots, WellSpelled s.spelling := by
  induction h with
  | number run =>
    intro s hs
    obtain rfl : s = _ := List.mem_singleton.mp hs
    exact run
  | string free =>
    intro s hs
    obtain rfl : s = _ := List.mem_singleton.mp hs
    exact wellSpelled_string.mpr free
  | @call name params run _ ih =>
    intro s hs
    rw [Expr.slots_call, List.mem_cons, List.mem_cons, List.mem_append, List.mem_singleton] at hs
    rcases hs with rfl | rfl | hs | rfl
    · exact .inl rfl
    · exact run
    · obtain ⟨e, he, hs⟩ := List.mem_flatMap.mp hs
      exact ih e he s hs
    · exact .inr rfl

theorem Expr.wellFormed_of_slots {e : Expr} (h : ∀ s ∈ e.slots, WellSpelled s.spelling) :
    e.WellFormed := by
  induction e with
  | literal l =>
    obtain ⟨kind, value⟩ := l
    have hl := h (.fixed kind.tokenKind value) (List.mem_singleton.mpr rfl)
    cases kind with
    | number => exact .number hl
    | string => exact .string (wellSpelled_string.mp hl)
  | call name params ih =>
    have hname := h (.callee name) (by simp [Expr.slots_call])
    exact .call hname fun e he => ih e he fun s hs => h s (Expr.mem_slots_call he hs)

theorem Program.wellFormed_iff {p : Program} :
    p.WellFormed ↔ ∀ s ∈ p.slots, WellSpelled s.spelling := by
  constructor
  · intro h s hs
    obtain ⟨e, he, hs⟩ := List.mem_flatMap.mp hs
    exact (h e he).wellSpelled s hs
  · intro h e he
    exact Expr.wellFormed_of_slots fun s hs => h s (List.mem_flatMap.mpr ⟨e, he, hs⟩)

/-! ## Printing and reading back -/

theorem tokenize_printed {p : Program} (h : p.WellFormed) :
    ∃ ts, tokenize p.printed = .ok ts ∧ ts.map Token.spelling = p.flatten := by
  have hspelled : ∀ x ∈ p.flatten, WellSpelled x :=
    List.forall_mem_map.mpr (Program.wellFormed_iff.mp h)
  obtain ⟨ls, proper, hspelling, hraw⟩ := exists_lexemes_of_wellSpelled hspelled
  obtain ⟨ps, hcut, hps⟩ := exists_cut_spaced proper 0
  have htext : p.printed.toList = [' '].intercalate (ls.map Lexeme.raw) := by
    rw [Program.printed, String.toList_intercalate, List.map_map, hraw]
    rfl
  refine ⟨ps.map Placed.token, tokenize_eq_ok_iff_cut.mpr ⟨ps, htext ▸ hcut, rfl⟩, ?_⟩
  calc (ps.map Placed.token).map Token.spelling
      = (ps.map Placed.lexeme).map Lexeme.spelling := by rw [List.map_map, List.map_map]; rfl
    _ = p.flatten := by rw [hps, hspelling]

/-- A well-formed program is read back from its printed text, and every program
that is read from a text is well formed. -/
theorem printed_reads_back (p : Program) :
    (p.WellFormed → ∃ ts, tokenize p.printed = .ok ts ∧ parse .strict ts = .ok p) ∧
    ∀ source ts, tokenize source = .ok ts → parse .strict ts = .ok p → p.WellFormed := by
  constructor
  · intro h
    obtain ⟨ts, ht, hspelling⟩ := tokenize_printed h
    exact ⟨ts, ht, parse_complete (admits_strict_iff_map.mpr hspelling)⟩
  · intro source ts ht hp
    exact Program.wellFormed_iff.mpr (spelling_of_parse (wellSpelled_of_tokenize ht) hp)

/-- Each string holds the other quote, and one looks like a call. -/
theorem printed_reads_back_quotes :
    let p : Program := ⟨[.call "f" [.literal ⟨.string, "(\"1)"⟩, .literal ⟨.string, "it's"⟩]]⟩
    p.WellFormed ∧ p.printed = "( f '(\"1)' \"it's\" )" ∧
      ∃ ts, tokenize p.printed = .ok ts ∧ parse .strict ts = .ok p := by
  intro p
  have hp : p.WellFormed := by
    intro e he
    obtain rfl : e = _ := List.mem_singleton.mp he
    refine .call ⟨by simp, by simp⟩ fun e he => ?_
    simp only [List.mem_cons, List.not_mem_nil, or_false] at he
    rcases he with rfl | rfl
    · exact .string (.inr (by decide))
    · exact .string (.inl (by decide))
  exact ⟨hp, by decide +kernel, (printed_reads_back p).1 hp⟩

end Source

end ParenCall
