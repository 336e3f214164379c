import ParenCall.Proofs.Lexing
import ParenCall.Proofs.Report

/-! # Where cutting stops

Cutting stops at a character that is not blank and starts no lexeme: no
parenthesis, digit or letter, and no quote with a partner further on. All of the
text before it is cut, and cut as if it stood alone, since such a character makes
no lexeme longer. Conversely, a text that is cut to its end and followed by such a
character is cut up to that character and no further. A source therefore has at
most one position of this sort, and none exactly when it is cut to its end. -/

namespace ParenCall

/-! ## Characters that start no lexeme -/

/-- The character starts neither a blank nor a lexeme when this text follows it. -/
structure StartsNothing (c : Char) (behind : List Char) : Prop where
  solid : Text.isBlank c = false
  noParen : c ≠ '(' ∧ c ≠ ')'
  noDigit : c.isDigit = false
  noLetter : c.isAlpha = false
  noPartner : ∀ quote : Quote, quote.mark = c → c ∉ behind

namespace Lexeme

theorem stringAfter?_eq_none_iff {quote : Quote} {cs : List Char} :
    stringAfter? quote cs = none ↔ quote.mark ∉ cs := by
  constructor
  · intro h hmem
    obtain ⟨content, rest, rfl, hcontent⟩ := List.eq_append_cons_of_mem hmem
    rw [stringAfter?_complete hcontent] at h
    contradiction
  · intro hmem
    have hdrop : cs.dropWhile (· != quote.mark) = [] :=
      List.dropWhile_eq_nil_iff.mpr (bne_of_notMem hmem)
    rw [stringAfter?, hdrop]

theorem first?_eq_none_iff {c : Char} {cs : List Char} :
    first? (c :: cs) = none ↔
      (c ≠ '(' ∧ c ≠ ')') ∧ c.isDigit = false ∧ c.isAlpha = false ∧
        ∀ quote : Quote, quote.mark = c → c ∉ cs := by
  constructor
  · intro h
    simp only [first?] at h
    split at h
    · contradiction
    split at h
    · contradiction
    split at h
    · contradiction
    split at h
    · contradiction
    rename_i hopen hclose hdigit halpha
    refine ⟨⟨hopen, hclose⟩, Bool.eq_false_iff.mpr hdigit, Bool.eq_false_iff.mpr halpha, ?_⟩
    rintro quote rfl
    rw [Quote.ofMark?_mark] at h
    exact stringAfter?_eq_none_iff.mp h
  · rintro ⟨⟨hopen, hclose⟩, hdigit, halpha, hpartner⟩
    have hquote : (Quote.ofMark? c).bind (stringAfter? · cs) = none := by
      cases hq : Quote.ofMark? c with
      | none => rfl
      | some quote =>
        obtain rfl := Quote.ofMark?_eq_some hq
        exact stringAfter?_eq_none_iff.mpr (hpartner quote rfl)
    simp [first?, hopen, hclose, hdigit, halpha, hquote]

end Lexeme

namespace StartsNothing

variable {c : Char} {behind : List Char}

theorem iff_first?_eq_none :
    StartsNothing c behind ↔
      Text.isBlank c = false ∧ Lexeme.first? (c :: behind) = none := by
  rw [Lexeme.first?_eq_none_iff]
  constructor
  · rintro ⟨solid, noParen, noDigit, noLetter, noPartner⟩
    exact ⟨solid, noParen, noDigit, noLetter, noPartner⟩
  · rintro ⟨solid, noParen, noDigit, noLetter, noPartner⟩
    exact ⟨solid, noParen, noDigit, noLetter, noPartner⟩

theorem endsBefore (h : StartsNothing c behind) (l : Lexeme) : l.EndsBefore (c :: behind) := by
  intro d hd
  obtain rfl : c = d := by simpa using hd
  cases l with
  | openParen | closeParen | string => rfl
  | number => exact h.noDigit
  | name => exact h.noLetter

end StartsNothing

/-! ## The text before the stop -/

/-- What is cut before a stop is a text of its own, up to a character that starts
nothing. -/
theorem exists_cut_before_stop {offset n : Nat} {cs : List Char} {c : Char}
    (h : (scanFrom offset cs).stop = some (c, n)) :
    ∃ before behind, cs = before ++ c :: behind ∧ n = offset + before.length ∧
      Cut offset before (scanFrom offset cs).placed ∧ StartsNothing c behind := by
  fun_induction scanFrom offset cs with
  | case1 => contradiction
  | case2 offset d cs hblank ih =>
    obtain ⟨before, behind, rfl, rfl, hcut, hc⟩ := ih h
    refine ⟨d :: before, behind, rfl, ?_, .blank hblank hcut, hc⟩
    rw [List.length_cons]
    omega
  | case3 offset d cs hblank hnone =>
    cases h
    have hd := StartsNothing.iff_first?_eq_none.mpr ⟨Bool.eq_false_iff.mpr hblank, hnone⟩
    exact ⟨[], cs, rfl, rfl, .done, hd⟩
  | case4 offset d cs hblank l rest hfirst tail ih =>
    obtain ⟨before, behind, rfl, rfl, hcut, hc⟩ := ih h
    obtain ⟨htext, proper, ends⟩ := Lexeme.first?_eq_some_iff.mp hfirst
    refine ⟨l.raw ++ before, behind, ?_, ?_, .lexeme proper ends.of_append hcut, hc⟩
    · rw [htext, List.append_assoc]
    · rw [List.length_append]
      omega

theorem Cut.scanFrom_stop {offset : Nat} {before behind : List Char} {ps : List Placed} {c : Char}
    (h : Cut offset before ps) (hc : StartsNothing c behind) :
    scanFrom offset (before ++ c :: behind) = ⟨ps, some (c, offset + before.length)⟩ := by
  obtain ⟨hblank, hnone⟩ := StartsNothing.iff_first?_eq_none.mp hc
  rw [h.scanFrom_append hc.endsBefore, ParenCall.scanFrom_stop hblank hnone, List.append_nil]

/-! ## Positions in a source -/

/-- The part of a source before a position. -/
def textBefore (source : String) (p : Nat) : String := String.ofList (source.toList.take p)

@[simp] theorem toList_textBefore (source : String) (p : Nat) :
    (textBefore source p).toList = source.toList.take p := String.toList_ofList

/-- A position up to which all is cut, with a character that starts nothing. -/
structure Unlexable (source : String) (p : Nat) : Prop where
  before : ∃ ts, tokenize (textBefore source p) = .ok ts
  here : ∃ c, source.toList[p]? = some c ∧ StartsNothing c (source.toList.drop (p + 1))

theorem Unlexable.scan_eq {source : String} {p : Nat} (h : Unlexable source p) :
    ∃ c, source.toList[p]? = some c ∧
      scan source = ⟨(scan (textBefore source p)).placed, some (c, p)⟩ := by
  obtain ⟨c, hc, hstart⟩ := h.here
  obtain ⟨hlt, hget⟩ := List.getElem?_eq_some_iff.mp hc
  obtain ⟨ts, hts⟩ := h.before
  obtain ⟨hstop, _⟩ := tokenize_eq_ok_iff.mp hts
  have hcut : Cut 0 (source.toList.take p) (scan (textBefore source p)).placed := by
    rw [scan, toList_textBefore] at hstop ⊢
    exact cut_of_stop_eq_none hstop
  have hsplit : source.toList = source.toList.take p ++ c :: source.toList.drop (p + 1) := by
    rw [← hget, List.getElem_cons_drop, List.take_append_drop]
  have hscan := hcut.scanFrom_stop hstart
  rw [← hsplit, List.length_take_of_le (Nat.le_of_lt hlt), Nat.zero_add] at hscan
  exact ⟨c, hc, hscan⟩

theorem unlexable_of_stop {source : String} {p : Nat} {c : Char}
    (h : (scan source).stop = some (c, p)) : Unlexable source p := by
  obtain ⟨before, behind, hsource, hp, hcut, hc⟩ := exists_cut_before_stop h
  obtain rfl : p = before.length := by omega
  have hbefore : (textBefore source before.length).toList = before := by
    rw [toList_textBefore, hsource, List.take_left]
  refine ⟨⟨_, tokenize_eq_ok_iff_cut.mpr ⟨_, hbefore ▸ hcut, rfl⟩⟩, c, ?_, ?_⟩
  · simp [hsource]
  · simpa [hsource] using hc

theorem unlexable_iff_stop {source : String} {p : Nat} :
    Unlexable source p ↔ ∃ c, (scan source).stop = some (c, p) := by
  constructor
  · intro h
    obtain ⟨c, _, hscan⟩ := h.scan_eq
    exact ⟨c, by rw [hscan]⟩
  · rintro ⟨c, h⟩
    exact unlexable_of_stop h

/-! ## Faults -/

theorem LexFault.offset_ofStop (c : Char) (n : Nat) : (LexFault.ofStop c n).offset = n := by
  unfold LexFault.ofStop
  split <;> rfl

/-- A quote is reported as an unclosed string and any other character by itself. -/
theorem LexFault.report_ofStop (c : Char) (n : Nat) :
    if c = '"' ∨ c = '\'' then
      (LexFault.ofStop c n).code = .unterminatedString ∧
        (LexFault.ofStop c n).details = [("quote", .text (String.singleton c))]
    else
      (LexFault.ofStop c n).code = .unexpectedCharacter ∧
        (LexFault.ofStop c n).details = [("char", .text (String.singleton c))] := by
  split
  · rename_i hquote
    rcases hquote with rfl | rfl <;> exact ⟨rfl, rfl⟩
  · rename_i hquote
    have hnone : Quote.ofMark? c = none := by
      cases hq : Quote.ofMark? c with
      | none => rfl
      | some quote =>
        obtain rfl := Quote.ofMark?_eq_some hq
        cases quote <;> simp [Quote.mark] at hquote
    rw [LexFault.ofStop, hnone]
    exact ⟨rfl, rfl⟩

/-- The character that a fault is about. -/
theorem exists_char_of_lexFault {source : String} {f : LexFault} (h : tokenize source = .error f) :
    ∃ c, f = .ofStop c f.offset ∧ source.toList[f.offset]? = some c ∧
      Text.isBlank c = false := by
  obtain ⟨c, n, hstop, rfl⟩ := tokenize_eq_error_iff.mp h
  obtain ⟨before, behind, hsource, hn, _, hc⟩ := exists_cut_before_stop hstop
  obtain rfl : n = before.length := by omega
  rw [LexFault.offset_ofStop]
  exact ⟨c, rfl, by simp [hsource], hc.solid⟩

theorem exists_fault_iff_unlexable {source : String} {p : Nat} :
    (∃ f, tokenize source = .error f ∧ f.offset = p) ↔ Unlexable source p := by
  rw [unlexable_iff_stop]
  constructor
  · rintro ⟨f, hf, rfl⟩
    obtain ⟨c, n, hstop, rfl⟩ := tokenize_eq_error_iff.mp hf
    rw [LexFault.offset_ofStop]
    exact ⟨c, hstop⟩
  · rintro ⟨c, hstop⟩
    exact ⟨_, tokenize_eq_error_iff.mpr ⟨c, p, hstop, rfl⟩, LexFault.offset_ofStop c p⟩

theorem tokenize_ok_iff_no_unlexable {source : String} :
    (∃ ts, tokenize source = .ok ts) ↔ ∀ p, ¬ Unlexable source p := by
  constructor
  · rintro ⟨ts, hts⟩ p hp
    obtain ⟨f, hf, _⟩ := exists_fault_iff_unlexable.mpr hp
    rw [hts] at hf
    contradiction
  · intro h
    cases ht : tokenize source with
    | ok ts => exact ⟨ts, rfl⟩
    | error f => exact absurd (exists_fault_iff_unlexable.mp ⟨f, ht, rfl⟩) (h f.offset)

/-- Cutting fails at a position exactly when all before it is cut and its
character starts nothing. The fault names that character, as a quote if it is
one, and the lexemes before it are those of the text before it. Hence cutting
succeeds when there is no such position, and there is never more than one. -/
theorem tokenize_fails_at_unlexable (source : String) :
    (∀ p, (∃ f, tokenize source = .error f ∧ f.offset = p) ↔ Unlexable source p) ∧
    (∀ f, tokenize source = .error f → ∃ c d, source.toList[f.offset]? = some c ∧
      f.failure = .diagnostic d ∧ d.stage = .lexing ∧ d.offset = some (f.offset : Int) ∧
      (if c = '"' ∨ c = '\'' then
        d.code = .unterminatedString ∧ d.details = [("quote", .text (String.singleton c))]
      else
        d.code = .unexpectedCharacter ∧ d.details = [("char", .text (String.singleton c))]) ∧
      (scan source).placed = (scan (textBefore source f.offset)).placed) ∧
    ((∃ ts, tokenize source = .ok ts) ↔ ∀ p, ¬ Unlexable source p) ∧
    ∀ p q, Unlexable source p → Unlexable source q → p = q := by
  refine ⟨fun _ => exists_fault_iff_unlexable, ?_, tokenize_ok_iff_no_unlexable, ?_⟩
  · intro f hf
    obtain ⟨_, _, hscan⟩ := (exists_fault_iff_unlexable.mp ⟨f, hf, rfl⟩).scan_eq
    obtain ⟨c, hstop, hc, _⟩ := exists_char_of_lexFault hf
    obtain ⟨d, hd, _, hstage, hcode, hdetails, hoffset⟩ := f.failure_raised
    have hreport := LexFault.report_ofStop c f.offset
    rw [← hstop, ← hcode, ← hdetails] at hreport
    exact ⟨c, d, hc, hd, hstage, hoffset, hreport, by rw [hscan]⟩
  · intro p q hp hq
    obtain ⟨f, hf, rfl⟩ := exists_fault_iff_unlexable.mpr hp
    obtain ⟨g, hg, rfl⟩ := exists_fault_iff_unlexable.mpr hq
    rw [Except.error.inj (hf.symm.trans hg)]

/-- The double quotes in the first string start nothing either, but the text
before them is not cut to its end; the one in question has no partner. -/
theorem tokenize_fails_at_unlexable_third_quote :
    let source := "(f '\"\"' 12\"a "
    (∀ p, Unlexable source p ↔ p = 10) ∧
      (scan source).placed.map Placed.token = [⟨.paren, "(", 0⟩, ⟨.name, "f", 1⟩,
        ⟨.string, "\"\"", 3⟩, ⟨.number, "12", 8⟩] ∧
      (scan (textBefore source 10)).placed = (scan source).placed := by
  intro source
  have hf : tokenize source = .error (.unterminatedString .double 10) := by decide +kernel
  obtain ⟨hiff, hreport, _, hunique⟩ := tokenize_fails_at_unlexable source
  have h10 : Unlexable source 10 := (hiff 10).mp ⟨_, hf, rfl⟩
  obtain ⟨_, _, _, _, _, _, _, hplaced⟩ := hreport _ hf
  refine ⟨fun p => ⟨fun hp => hunique p 10 hp h10, fun hp => hp ▸ h10⟩, by decide +kernel, ?_⟩
  exact hplaced.symm

end ParenCall
