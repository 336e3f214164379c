import Mathlib.Data.List.TakeWhile
import ParenCall.Lexeme

/-! # How program text is cut

A lexeme stands at the start of a text exactly when it is of the form that its
kind asks for, the text starts with its characters, and what follows does not
make it longer. From this, cutting a whole text is a relation between the text
and its lexemes: blanks are passed over, and everything else is a lexeme. The
text of a token that was cut from program text is therefore a parenthesis, a
run of digits, a run of letters, or a text without the quote that enclosed it.
Tokens given by hand need not be like that. -/

namespace ParenCall

/-! ## Classes of characters -/

theorem isDigit_iff_toNat {c : Char} : c.isDigit = true ↔ 48 ≤ c.toNat ∧ c.toNat ≤ 57 := by
  simp only [Char.isDigit, Bool.and_eq_true, decide_eq_true_eq, ge_iff_le,
    UInt32.le_iff_toNat_le, Char.reduceVal, UInt32.reduceToNat]
  rfl

theorem isAlpha_iff_toNat {c : Char} :
    c.isAlpha = true ↔ (65 ≤ c.toNat ∧ c.toNat ≤ 90) ∨ (97 ≤ c.toNat ∧ c.toNat ≤ 122) := by
  delta Char.isAlpha Char.isUpper Char.isLower
  simp only [Bool.or_eq_true, Bool.and_eq_true, decide_eq_true_eq, ge_iff_le,
    UInt32.le_iff_toNat_le, Char.reduceVal, UInt32.reduceToNat]
  rfl

theorem isDigit_eq_false_of_isAlpha {c : Char} (h : c.isAlpha = true) : c.isDigit = false := by
  rw [Bool.eq_false_iff, Ne, isDigit_iff_toNat]
  rw [isAlpha_iff_toNat] at h
  omega

theorem toNat_of_isBlank {c : Char} (h : Text.isBlank c = true) :
    c.toNat ≤ 32 ∨ 133 ≤ c.toNat := by
  obtain ⟨r, hr, hlo, hhi⟩ := Text.Ranges.has_iff.mp h
  simp only [Text.blanks, List.mem_cons, List.not_mem_nil, or_false] at hr
  rcases hr with rfl | rfl | rfl | rfl | rfl | rfl | rfl | rfl | rfl | rfl <;> omega

/-- A non-empty text of such characters only. -/
def IsRun (p : Char → Bool) (text : String) : Prop :=
  text.toList ≠ [] ∧ ∀ c ∈ text.toList, p c = true

/-- The texts that tokens of a kind have when they are cut from program text. -/
def WellSpelled : Token.Kind × String → Prop
  | (.paren, text) => text = "(" ∨ text = ")"
  | (.number, text) => IsRun Char.isDigit text
  | (.string, text) => ∃ quote : Quote, quote.mark ∉ text.toList
  | (.name, text) => IsRun Char.isAlpha text

/-- The characters that make a lexeme of this kind longer when they follow it. -/
def Token.Kind.growsBy : Token.Kind → Char → Bool
  | .number => Char.isDigit
  | .name => Char.isAlpha
  | .paren | .string => fun _ => false

theorem Token.Kind.growsBy_eq_false_of_isBlank {c : Char} (h : Text.isBlank c = true)
    (kind : Token.Kind) : kind.growsBy c = false := by
  have hc := toNat_of_isBlank h
  cases kind with
  | number =>
    show c.isDigit = false
    rw [Bool.eq_false_iff, Ne, isDigit_iff_toNat]
    omega
  | name =>
    show c.isAlpha = false
    rw [Bool.eq_false_iff, Ne, isAlpha_iff_toNat]
    omega
  | paren | string => rfl

theorem Token.Kind.isBlank_eq_false_of_growsBy {kind : Token.Kind} {c : Char}
    (h : kind.growsBy c = true) : Text.isBlank c = false := by
  refine Bool.eq_false_iff.mpr fun hblank => ?_
  rw [kind.growsBy_eq_false_of_isBlank hblank] at h
  contradiction

theorem Token.Kind.ne_paren_of_growsBy {k : Token.Kind} {c : Char} (h : k.growsBy c = true) :
    c ≠ '(' ∧ c ≠ ')' := by
  constructor
  · rintro rfl
    cases k <;> contradiction
  · rintro rfl
    cases k <;> contradiction

theorem Quote.ofMark?_mark (q : Quote) : Quote.ofMark? q.mark = some q := by
  cases q <;> rfl

/-! ## Runs of characters -/

theorem run_of_takeWhile {p : Char → Bool} {c : Char} (hc : p c = true) (cs : List Char) :
    c :: cs.takeWhile p ≠ [] ∧ ∀ d ∈ c :: cs.takeWhile p, p d = true := by
  refine ⟨by simp, fun d hd => ?_⟩
  cases hd with
  | head => exact hc
  | tail _ hd => exact List.mem_takeWhile_imp hd

theorem head?_dropWhile {p : Char → Bool} {cs : List Char} :
    ∀ c ∈ (cs.dropWhile p).head?, p c = false := by
  intro c hc
  have h := List.head?_dropWhile_not p cs
  rw [Option.mem_def.mp hc] at h
  exact h

theorem takeWhile_append_run {p : Char → Bool} {run rest : List Char}
    (hrun : ∀ c ∈ run, p c = true) (hrest : ∀ c ∈ rest.head?, p c = false) :
    (run ++ rest).takeWhile p = run ∧ (run ++ rest).dropWhile p = rest := by
  rw [List.takeWhile_append_of_pos hrun, List.dropWhile_append_of_pos hrun]
  cases rest with
  | nil => simp
  | cons c cs =>
    have hc : p c = false := hrest c rfl
    simp [hc]

theorem bne_of_notMem {d : Char} {cs : List Char} (h : d ∉ cs) : ∀ c ∈ cs, (c != d) = true := by
  intro c hc
  rw [bne_iff_ne]
  rintro rfl
  exact h hc

namespace Lexeme

/-! ## One lexeme -/

def spelling (l : Lexeme) : Token.Kind × String := (l.kind, String.ofList l.text)

/-- Of the form that its kind asks for. -/
def Proper : Lexeme → Prop
  | .openParen | .closeParen => True
  | .number digits => digits ≠ [] ∧ ∀ c ∈ digits, c.isDigit = true
  | .string quote content => quote.mark ∉ content
  | .name letters => letters ≠ [] ∧ ∀ c ∈ letters, c.isAlpha = true

/-- What follows the lexeme does not make it longer. -/
def EndsBefore (l : Lexeme) (rest : List Char) : Prop :=
  ∀ c ∈ rest.head?, l.kind.growsBy c = false

theorem endsBefore_nil (l : Lexeme) : l.EndsBefore [] := by simp [EndsBefore]

theorem endsBefore_blank (l : Lexeme) {c : Char} (h : Text.isBlank c = true) (cs : List Char) :
    l.EndsBefore (c :: cs) := by
  intro d hd
  obtain rfl : c = d := by simpa using hd
  exact l.kind.growsBy_eq_false_of_isBlank h

theorem EndsBefore.append {l : Lexeme} {cs rest : List Char} (h : l.EndsBefore cs)
    (hrest : l.EndsBefore rest) : l.EndsBefore (cs ++ rest) := by
  cases cs with
  | nil => exact hrest
  | cons c cs => exact h

theorem EndsBefore.of_append {l : Lexeme} {cs rest : List Char} (h : l.EndsBefore (cs ++ rest)) :
    l.EndsBefore cs := by
  cases cs with
  | nil => exact l.endsBefore_nil
  | cons c cs => exact h

theorem Proper.wellSpelled {l : Lexeme} (h : l.Proper) : WellSpelled l.spelling := by
  cases l with
  | openParen => exact .inl rfl
  | closeParen => exact .inr rfl
  | number digits =>
    show IsRun Char.isDigit (String.ofList digits)
    rw [IsRun, String.toList_ofList]
    exact h
  | string quote content =>
    refine ⟨quote, ?_⟩
    rw [text, String.toList_ofList]
    exact h
  | name letters =>
    show IsRun Char.isAlpha (String.ofList letters)
    rw [IsRun, String.toList_ofList]
    exact h

theorem Proper.head {l : Lexeme} (h : l.Proper) :
    ∃ c cs, l.raw = c :: cs ∧ Text.isBlank c = false := by
  cases l with
  | openParen => exact ⟨'(', [], rfl, by decide⟩
  | closeParen => exact ⟨')', [], rfl, by decide⟩
  | number digits =>
    obtain ⟨c, cs, rfl⟩ := List.exists_cons_of_ne_nil h.1
    have hc : Token.Kind.number.growsBy c = true := h.2 c List.mem_cons_self
    exact ⟨c, cs, rfl, Token.Kind.isBlank_eq_false_of_growsBy hc⟩
  | string quote content =>
    exact ⟨quote.mark, content ++ [quote.mark], rfl, by cases quote <;> decide⟩
  | name letters =>
    obtain ⟨c, cs, rfl⟩ := List.exists_cons_of_ne_nil h.1
    have hc : Token.Kind.name.growsBy c = true := h.2 c List.mem_cons_self
    exact ⟨c, cs, rfl, Token.Kind.isBlank_eq_false_of_growsBy hc⟩

theorem stringAfter?_sound {quote : Quote} {cs rest : List Char} {l : Lexeme}
    (h : stringAfter? quote cs = some (l, rest)) : l.Proper ∧ l.EndsBefore rest := by
  unfold stringAfter? at h
  split at h
  · contradiction
  · obtain ⟨rfl, rfl⟩ := by simpa using h
    refine ⟨fun hq => ?_, fun _ _ => rfl⟩
    have hp := List.mem_takeWhile_imp hq
    simp at hp

theorem first?_sound {cs rest : List Char} {l : Lexeme} (h : first? cs = some (l, rest)) :
    l.Proper ∧ l.EndsBefore rest := by
  cases cs with
  | nil => simp [first?] at h
  | cons c cs =>
    simp only [first?] at h
    split at h
    · obtain ⟨rfl, rfl⟩ := by simpa using h
      exact ⟨trivial, fun _ _ => rfl⟩
    split at h
    · obtain ⟨rfl, rfl⟩ := by simpa using h
      exact ⟨trivial, fun _ _ => rfl⟩
    split at h
    · rename_i hd
      obtain ⟨rfl, rfl⟩ := by simpa using h
      exact ⟨run_of_takeWhile hd cs, head?_dropWhile⟩
    split at h
    · rename_i ha
      obtain ⟨rfl, rfl⟩ := by simpa using h
      exact ⟨run_of_takeWhile ha cs, head?_dropWhile⟩
    · obtain ⟨q, _, hl⟩ := Option.bind_eq_some_iff.mp h
      exact stringAfter?_sound hl

theorem stringAfter?_complete {quote : Quote} {content : List Char}
    (h : quote.mark ∉ content) (rest : List Char) :
    stringAfter? quote (content ++ quote.mark :: rest) = some (.string quote content, rest) := by
  have hstop : ∀ c ∈ (quote.mark :: rest).head?, (c != quote.mark) = false := by simp
  obtain ⟨htake, hdrop⟩ := takeWhile_append_run (bne_of_notMem h) hstop
  rw [stringAfter?, htake, hdrop]

theorem first?_complete {l : Lexeme} {rest : List Char} (proper : l.Proper)
    (ends : l.EndsBefore rest) : first? (l.raw ++ rest) = some (l, rest) := by
  cases l with
  | openParen => rfl
  | closeParen => rfl
  | number digits =>
    obtain ⟨c, cs, rfl⟩ := List.exists_cons_of_ne_nil proper.1
    have hc : c.isDigit = true := proper.2 c List.mem_cons_self
    obtain ⟨hopen, hclose⟩ := Token.Kind.ne_paren_of_growsBy (k := .number) hc
    have hcs : ∀ d ∈ cs, d.isDigit = true := fun d hd => proper.2 d (List.mem_cons_of_mem _ hd)
    obtain ⟨htake, hdrop⟩ := takeWhile_append_run hcs ends
    simp only [raw, List.cons_append, first?, hopen, hclose, hc, htake, hdrop, if_true, if_false]
  | string quote content =>
    -- a quote is neither a parenthesis nor a digit nor a letter
    have hmark : first? (quote.mark :: (content ++ quote.mark :: rest)) =
        (Quote.ofMark? quote.mark).bind (stringAfter? · (content ++ quote.mark :: rest)) := by
      cases quote <;> rfl
    simp only [raw, List.cons_append, List.append_assoc, List.nil_append]
    rw [hmark, Quote.ofMark?_mark]
    exact stringAfter?_complete proper rest
  | name letters =>
    obtain ⟨c, cs, rfl⟩ := List.exists_cons_of_ne_nil proper.1
    have hc : c.isAlpha = true := proper.2 c List.mem_cons_self
    have hdigit : c.isDigit = false := isDigit_eq_false_of_isAlpha hc
    obtain ⟨hopen, hclose⟩ := Token.Kind.ne_paren_of_growsBy (k := .name) hc
    have hcs : ∀ d ∈ cs, d.isAlpha = true := fun d hd => proper.2 d (List.mem_cons_of_mem _ hd)
    obtain ⟨htake, hdrop⟩ := takeWhile_append_run hcs ends
    simp [raw, first?, hopen, hclose, hdigit, hc, htake, hdrop]

theorem first?_eq_some_iff {cs rest : List Char} {l : Lexeme} :
    first? cs = some (l, rest) ↔ cs = l.raw ++ rest ∧ l.Proper ∧ l.EndsBefore rest := by
  constructor
  · intro h
    exact ⟨first?_eq_some h, first?_sound h⟩
  · rintro ⟨rfl, proper, ends⟩
    exact first?_complete proper ends

end Lexeme

/-! ## A text -/

theorem scanFrom_blank {c : Char} (h : Text.isBlank c = true) (offset : Nat) (cs : List Char) :
    scanFrom offset (c :: cs) = scanFrom (offset + 1) cs := by
  rw [scanFrom, if_pos h]

theorem scanFrom_stop {c : Char} {cs : List Char} (hblank : Text.isBlank c = false)
    (h : Lexeme.first? (c :: cs) = none) (offset : Nat) :
    scanFrom offset (c :: cs) = ⟨[], some (c, offset)⟩ := by
  rw [scanFrom, if_neg (by simp [hblank])]
  split
  · rfl
  · rename_i hsome
    rw [h] at hsome
    contradiction

theorem scanFrom_lexeme {l : Lexeme} {rest : List Char} (proper : l.Proper)
    (ends : l.EndsBefore rest) (offset : Nat) :
    scanFrom offset (l.raw ++ rest) =
      ⟨⟨l, offset⟩ :: (scanFrom (offset + l.raw.length) rest).placed,
        (scanFrom (offset + l.raw.length) rest).stop⟩ := by
  have hfirst := Lexeme.first?_complete proper ends
  obtain ⟨c, cs, hraw, hblank⟩ := proper.head
  rw [hraw, List.cons_append] at hfirst ⊢
  rw [scanFrom, if_neg (by simp [hblank]), ← hraw]
  split
  · rename_i hnone
    rw [hfirst] at hnone
    contradiction
  · rename_i l' rest' hsome
    rw [hfirst] at hsome
    obtain ⟨rfl, rfl⟩ := by simpa using hsome
    rfl

/-- A text that starts at this offset is cut into these lexemes, and nothing of
it is left. -/
inductive Cut : Nat → List Char → List Placed → Prop
  | done {offset : Nat} : Cut offset [] []
  | blank {offset : Nat} {c : Char} {cs : List Char} {ps : List Placed}
      (blank : Text.isBlank c = true) (rest : Cut (offset + 1) cs ps) : Cut offset (c :: cs) ps
  | lexeme {offset : Nat} {l : Lexeme} {cs : List Char} {ps : List Placed} (proper : l.Proper)
      (ends : l.EndsBefore cs) (rest : Cut (offset + l.raw.length) cs ps) :
      Cut offset (l.raw ++ cs) (⟨l, offset⟩ :: ps)

theorem Cut.proper {offset : Nat} {cs : List Char} {ps : List Placed} (h : Cut offset cs ps) :
    ∀ p ∈ ps, p.lexeme.Proper := by
  induction h with
  | done => simp
  | blank _ _ ih => exact ih
  | lexeme proper _ _ ih =>
    intro p hp
    cases hp with
    | head => exact proper
    | tail _ hp => exact ih p hp

theorem Cut.scanFrom_eq {offset : Nat} {cs : List Char} {ps : List Placed}
    (h : Cut offset cs ps) : scanFrom offset cs = ⟨ps, none⟩ := by
  induction h with
  | done => rw [scanFrom]
  | blank blank _ ih => rw [scanFrom_blank blank, ih]
  | lexeme proper ends _ ih => rw [scanFrom_lexeme proper ends, ih]

/-- A text that is cut to its end is cut in the same way before a text that makes
no lexeme longer. -/
theorem Cut.scanFrom_append {offset : Nat} {cs : List Char} {ps : List Placed}
    (h : Cut offset cs ps) {rest : List Char} (hrest : ∀ l : Lexeme, l.EndsBefore rest) :
    scanFrom offset (cs ++ rest) =
      ⟨ps ++ (scanFrom (offset + cs.length) rest).placed,
        (scanFrom (offset + cs.length) rest).stop⟩ := by
  induction h with
  | done => rfl
  | blank blank _ ih =>
    rw [List.cons_append, scanFrom_blank blank, ih, List.length_cons, Nat.add_right_comm,
      Nat.add_assoc]
  | @lexeme offset l cs ps proper ends _ ih =>
    rw [List.append_assoc, scanFrom_lexeme proper (ends.append (hrest l)), ih,
      List.length_append, Nat.add_assoc]
    rfl

theorem cut_of_stop_eq_none {offset : Nat} {cs : List Char}
    (h : (scanFrom offset cs).stop = none) : Cut offset cs (scanFrom offset cs).placed := by
  fun_induction scanFrom offset cs with
  | case1 => exact .done
  | case2 offset c cs hblank ih => exact .blank hblank (ih h)
  | case3 => contradiction
  | case4 offset c cs _ l rest hfirst tail ih =>
    obtain ⟨htext, proper, ends⟩ := Lexeme.first?_eq_some_iff.mp hfirst
    rw [htext]
    exact .lexeme proper ends (ih h)

theorem tokenize_eq_ok_iff {source : String} {ts : List Token} :
    tokenize source = .ok ts ↔
      (scan source).stop = none ∧ ts = (scan source).placed.map Placed.token := by
  simp only [tokenize]
  split
  · rename_i hstop
    simp [hstop]
  · rename_i hstop
    simp [hstop, eq_comm]

theorem tokenize_eq_error_iff {source : String} {f : LexFault} :
    tokenize source = .error f ↔
      ∃ c offset, (scan source).stop = some (c, offset) ∧ f = .ofStop c offset := by
  simp only [tokenize]
  split
  · rename_i c offset hstop
    constructor
    · intro h
      exact ⟨c, offset, hstop, (Except.error.inj h).symm⟩
    · rintro ⟨c', offset', hstop', rfl⟩
      cases hstop.symm.trans hstop'
      rfl
  · rename_i hstop
    simp [hstop]

theorem tokenize_eq_ok_iff_cut {source : String} {ts : List Token} :
    tokenize source = .ok ts ↔ ∃ ps, Cut 0 source.toList ps ∧ ts = ps.map Placed.token := by
  rw [tokenize_eq_ok_iff, scan]
  constructor
  · rintro ⟨hstop, rfl⟩
    exact ⟨_, cut_of_stop_eq_none hstop, rfl⟩
  · rintro ⟨ps, hcut, rfl⟩
    rw [hcut.scanFrom_eq]
    exact ⟨rfl, rfl⟩

theorem wellSpelled_of_tokenize {source : String} {ts : List Token}
    (h : tokenize source = .ok ts) : ∀ t ∈ ts, WellSpelled (t.kind, t.text) := by
  obtain ⟨ps, hcut, rfl⟩ := tokenize_eq_ok_iff_cut.mp h
  intro t ht
  obtain ⟨p, hp, rfl⟩ := List.mem_map.mp ht
  exact (hcut.proper p hp).wellSpelled

end ParenCall
