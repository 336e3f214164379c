import ParenCall.Proofs.Compilation
import ParenCall.Proofs.Partition
import ParenCall.Proofs.Prefixes

/-! # What the advice on parentheses says

Advice on parentheses counts characters of the source, while a fault is decided
by reading tokens. Two counts tie them together. Each parenthesis of a text is a
token of its own or stands inside of a string, since no other token and no blank
has one. And reading never closes more calls than were opened: the tokens that
open exceed those that close by at least the depth that reading has reached. An
opening parenthesis that is taken as a callee only adds to the excess. -/

namespace ParenCall

/-! ## Parentheses of a text -/

/-- A parenthesis token with this character. -/
def Token.isParen (c : Char) (t : Token) : Bool :=
  t.kind == .paren && t.text == String.singleton c

/-- What stands inside of the strings among these tokens. -/
def stringChars (ts : List Token) : List Char :=
  ts.flatMap fun t => if t.kind = .string then t.text.toList else []

theorem notMem_of_growsBy {k : Token.Kind} {c : Char} (hc : c = '(' ∨ c = ')')
    {run : List Char} (hrun : ∀ d ∈ run, k.growsBy d = true) : c ∉ run := by
  intro hmem
  obtain ⟨hopen, hclose⟩ := Token.Kind.ne_paren_of_growsBy (hrun c hmem)
  exact hc.elim hopen hclose

/-- A parenthesis in the characters of a lexeme is the lexeme itself or inside of
a string. -/
theorem Lexeme.Proper.count_raw {l : Lexeme} (h : l.Proper) {c : Char} (hc : c = '(' ∨ c = ')')
    (n : Nat) :
    l.raw.count c =
      (if (l.token n).isParen c then 1 else 0) + (stringChars [l.token n]).count c := by
  cases l with
  | openParen => rcases hc with rfl | rfl <;> rfl
  | closeParen => rcases hc with rfl | rfl <;> rfl
  | number digits => exact List.count_eq_zero.mpr (notMem_of_growsBy (k := .number) hc h.2)
  | string quote content =>
    have hmark : quote.mark ≠ c := by
      rcases hc with rfl | rfl <;> cases quote <;> decide
    simp [raw, token, text, kind, Token.isParen, stringChars, hmark]
  | name letters => exact List.count_eq_zero.mpr (notMem_of_growsBy (k := .name) hc h.2)

theorem Cut.count_paren {offset : Nat} {cs : List Char} {ps : List Placed} (h : Cut offset cs ps)
    {c : Char} (hc : c = '(' ∨ c = ')') :
    cs.count c = (ps.map Placed.token).countP (Token.isParen c) +
      (stringChars (ps.map Placed.token)).count c := by
  induction h with
  | done => rfl
  | @blank offset d cs ps blank _ ih =>
    have hd : d ≠ c := by
      rintro rfl
      rcases hc with rfl | rfl <;> contradiction
    rw [List.count_cons_of_ne hd, ih]
  | @lexeme offset l cs ps proper _ _ ih =>
    have htoken : Placed.token ⟨l, offset⟩ = l.token offset := rfl
    have hcons : stringChars (l.token offset :: ps.map Placed.token) =
        stringChars [l.token offset] ++ stringChars (ps.map Placed.token) := by
      simp [stringChars]
    rw [List.count_append, proper.count_raw hc offset, ih, List.map_cons, htoken,
      List.countP_cons, hcons, List.count_append]
    omega

/-- The opening parentheses among these tokens, in strings or not. -/
def openingParens (ts : List Token) : Nat := ts.countP Token.isOpen + (stringChars ts).count '('

/-- The closing parentheses among these tokens, in strings or not. -/
def closingParens (ts : List Token) : Nat := ts.countP Token.isClose + (stringChars ts).count ')'

theorem count_parens_of_tokenize {source : String} {ts : List Token}
    (h : tokenize source = .ok ts) :
    source.toList.count '(' = openingParens ts ∧ source.toList.count ')' = closingParens ts := by
  obtain ⟨ps, hcut, rfl⟩ := tokenize_eq_ok_iff_cut.mp h
  exact ⟨hcut.count_paren (.inl rfl), hcut.count_paren (.inr rfl)⟩

theorem stringChars_count_eq_zero {ts : List Token} {c : Char}
    (h : ∀ t ∈ ts, t.kind = .string → c ∉ t.text.toList) : (stringChars ts).count c = 0 := by
  refine List.count_eq_zero.mpr fun hmem => ?_
  obtain ⟨t, ht, hc⟩ := List.mem_flatMap.mp hmem
  split at hc
  · rename_i hkind
    exact h t ht hkind hc
  · contradiction

namespace Source

/-! ## The depth of a reading -/

theorem CalleeRule.isClose_eq_false_of_accepts {rule : CalleeRule} {t : Token}
    (h : rule.accepts t = true) : t.isClose = false := by
  cases hc : t.isClose with
  | false => rfl
  | true => simp [accepts, hc, Token.kind_of_isClose hc] at h

namespace Reading

/-- The number of open calls, one whose callee is due included. -/
def depth (r : Reading) : Nat := r.calls.length + if r.calleeDue then 1 else 0

theorem depth_add (r : Reading) (e : Expr) : (r.add e).depth = r.depth := by
  rw [depth, depth, length_calls_add, add_calleeDue]

theorem isComplete_iff_depth {r : Reading} : r.isComplete = true ↔ r.depth = 0 := by
  rw [isComplete_iff, depth]
  cases r.calleeDue <;> simp

theorem depth_of_takes {rule : CalleeRule} {r s : Reading} {t : Token} (h : Takes rule r t s) :
    s.depth + (if t.isClose then 1 else 0) ≤ r.depth + (if t.isOpen then 1 else 0) := by
  cases h with
  | callee due accepted =>
    have hclose := CalleeRule.isClose_eq_false_of_accepts accepted
    simp only [depth, due, hclose, List.length_cons, if_true, Bool.false_eq_true, if_false]
    omega
  | opening due opens =>
    simp [depth, due, opens, Token.isClose_eq_false_of_isOpen opens]
  | @closing c calls due closes inside =>
    rw [depth_add]
    simp [depth, due, closes, inside]
  | literal due spells =>
    rw [depth_add]
    simp [(not_paren_of_literal? spells).2]

/-- The counting invariant of a run. -/
theorem depth_of_readAll {rule : CalleeRule} {r s : Reading} {ts : List Token}
    (h : r.readAll rule ts = .ok s) :
    s.depth + ts.countP Token.isClose ≤ r.depth + ts.countP Token.isOpen := by
  induction ts generalizing r with
  | nil =>
    cases Except.ok.inj h
    simp
  | cons t ts ih =>
    obtain ⟨r', ht⟩ | ⟨f, hf⟩ := takes_or_refuses rule r t
    · rw [readAll_cons_of_takes ht] at h
      have hstep := depth_of_takes ht
      have hrest := ih h
      rw [List.countP_cons, List.countP_cons]
      omega
    · rw [readAll_cons_of_refuses hf] at h
      contradiction

end Reading

theorem closes_lt_opens_of_endOfInput {rule : CalleeRule} {ts : List Token} {offset : Option Int}
    (h : parse rule ts = .error (.endOfInput offset)) :
    ts.countP Token.isClose < ts.countP Token.isOpen := by
  rcases parse_eq_error h with hread | ⟨r, _, hread, hc, _⟩
  · obtain ⟨_, _, _, _, _, _, hf⟩ := Reading.readAll_eq_error hread
    cases hf
  · have hdepth : r.depth ≠ 0 := by
      intro hzero
      rw [Reading.isComplete_iff_depth.mpr hzero] at hc
      contradiction
    have hrun := Reading.depth_of_readAll hread
    have hstart : Reading.depth {} = 0 := rfl
    omega

/-- A token is unexpected where reading all before it has come through. -/
theorem exists_reading_of_unexpectedToken {rule : CalleeRule} {ts : List Token} {t : Token}
    (h : parse rule ts = .error (.unexpectedToken t)) :
    ∃ pre post r, ts = pre ++ t :: post ∧ Reading.readAll rule {} pre = .ok r ∧
      r.Refuses rule t (.unexpectedToken t) := by
  rcases parse_eq_error h with hread | ⟨_, _, _, _, _, hf⟩
  · obtain ⟨pre, u, post, r, rfl, hpre, hf⟩ := Reading.readAll_eq_error hread
    cases hf with
    | token due opens outside spells =>
      exact ⟨pre, post, r, rfl, hpre, .token due opens outside spells⟩
  · contradiction

/-- A closing parenthesis is unexpected only behind a complete program. -/
theorem parse_before_unexpected_close {rule : CalleeRule} {ts : List Token} {t : Token}
    (h : parse rule ts = .error (.unexpectedToken t)) (hclose : t.isClose = true) :
    ∃ pre post p, ts = pre ++ t :: post ∧ parse rule pre = .ok p := by
  obtain ⟨pre, post, r, rfl, hpre, hf⟩ := exists_reading_of_unexpectedToken h
  cases hf with
  | token due _ outside _ =>
    have hc := Reading.isComplete_iff.mpr ⟨due, outside hclose⟩
    exact ⟨pre, post, _, rfl, parse_eq_ok_iff.mpr ⟨r, hpre, hc, rfl⟩⟩

/-- Cut from a text, an unexpected token with the text of a closing parenthesis is
one. -/
theorem isClose_of_unexpectedToken {rule : CalleeRule} {source : String} {ts : List Token}
    {t : Token} (ht : tokenize source = .ok ts) (hp : parse rule ts = .error (.unexpectedToken t))
    (htext : t.text = ")") : t.isClose = true := by
  obtain ⟨pre, post, r, rfl, _, hf⟩ := exists_reading_of_unexpectedToken hp
  have hspelled := wellSpelled_of_tokenize ht t (by simp)
  rw [htext] at hspelled
  cases hf with
  | token _ _ _ spells =>
    cases hkind : t.kind with
    | paren => simp [Token.isClose, hkind, htext]
    | number => simp [literal?, hkind] at spells
    | string => simp [literal?, hkind] at spells
    | name =>
      rw [hkind] at hspelled
      have hletter := hspelled.2 ')' (by simp)
      contradiction

end Source

/-! ## Advice -/

namespace Diagnostic

def unmatchedAdvice (opened closed : Nat) : String :=
  "Unmatched parentheses: found " ++ toString opened ++ " '(' but " ++ toString closed ++ " ')'"

def outsideAdvice : String := "A ')' appears outside of any call"

theorem balanceAdvice_def (source : String) (d : Diagnostic) :
    d.balanceAdvice source =
      if source.toList.count '(' ≠ source.toList.count ')' then
        some (unmatchedAdvice (source.toList.count '(') (source.toList.count ')'))
      else if d.closesNothing then some outsideAdvice else none := rfl

theorem balanceAdvice_eq {source : String} {ts : List Token} (h : tokenize source = .ok ts)
    (d : Diagnostic) :
    d.balanceAdvice source =
      if openingParens ts = closingParens ts then
        if d.closesNothing then some outsideAdvice else none
      else some (unmatchedAdvice (openingParens ts) (closingParens ts)) := by
  obtain ⟨hopen, hclose⟩ := count_parens_of_tokenize h
  rw [balanceAdvice_def, hopen, hclose, ite_not]

/-- Texts that start with different characters differ, whatever follows. -/
theorem append_ne_of_head {lead rest text : String} {c d : Char} (hlead : lead.toList.head? = some c)
    (htext : text.toList.head? = some d) (h : c ≠ d) : lead ++ rest ≠ text := by
  intro heq
  have hheads := congrArg (fun s => s.toList.head?) heq
  simp only [String.toList_append, List.head?_append, hlead, htext, Option.some_or] at hheads
  exact h (Option.some.inj hheads)

theorem unmatchedAdvice_ne (opened closed : Nat) :
    unmatchedAdvice opened closed ≠ outsideAdvice := by
  show "Unmatched parentheses: found " ++ toString opened ++ _ ++ _ ++ _ ≠ outsideAdvice
  rw [String.append_assoc, String.append_assoc, String.append_assoc]
  exact append_ne_of_head (c := 'U') (d := 'A') (by decide +kernel) (by decide +kernel) (by decide)

theorem calleeAdvice_ne (d : Diagnostic) : d.calleeAdvice ≠ outsideAdvice := by
  unfold calleeAdvice
  split <;> decide +kernel

theorem characterAdvice_ne {char : Detail} {advice : String}
    (h : characterAdvice char = .ok advice) : advice ≠ outsideAdvice := by
  unfold characterAdvice at h
  split at h
  · split at h
    · cases h
      decide +kernel
    split at h
    · cases h
      decide +kernel
    split at h
    · cases h
      decide +kernel
    · cases h
      decide +kernel
  · cases h
    decide +kernel
  · cases h
  · cases h

theorem closesNothing_of_balanceAdvice {source : String} {d : Diagnostic}
    (h : d.balanceAdvice source = some outsideAdvice) : d.closesNothing = true := by
  rw [balanceAdvice_def] at h
  split at h
  · exact absurd (Option.some.inj h) (unmatchedAdvice_ne _ _)
  split at h
  · assumption
  · contradiction

/-- A parenthesis is said to be outside of any call only where a closing one was
met. -/
theorem closesNothing_of_advice {source : String} {d : Diagnostic}
    (h : d.advice source = some outsideAdvice) :
    (d.code = .endOfInput ∨ d.code = .unexpectedToken) ∧ d.closesNothing = true := by
  have hsuggest := suggest_of_advice h
  unfold suggest at hsuggest
  split at hsuggest
  · rename_i hcode
    exact ⟨.inl hcode, closesNothing_of_balanceAdvice (Except.ok.inj hsuggest)⟩
  · rename_i hcode
    exact ⟨.inr hcode, closesNothing_of_balanceAdvice (Except.ok.inj hsuggest)⟩
  · exact absurd (Option.some.inj (Except.ok.inj hsuggest)) d.calleeAdvice_ne
  · refine absurd (Option.some.inj (Except.ok.inj hsuggest)) ?_
    exact append_ne_of_head (c := 'C') (d := 'A') (by decide +kernel) (by decide +kernel)
      (by decide)
  · cases hchar : characterAdvice ((d.details.lookup "char").getD .nothing) with
    | error asked =>
      rw [hchar] at hsuggest
      cases hsuggest
    | ok advice =>
      rw [hchar] at hsuggest
      exact absurd (Option.some.inj (Except.ok.inj hsuggest)) (characterAdvice_ne hchar)
  · cases hsuggest

theorem advice_eq_balanceAdvice {d : Diagnostic}
    (h : d.code = .endOfInput ∨ d.code = .unexpectedToken) (source : String) :
    d.advice source = d.balanceAdvice source := by
  unfold advice suggest
  rcases h with h | h <;> rw [h]

theorem closesNothing_iff {d : Diagnostic} {t : Token} (h : d.details = t.details) :
    d.closesNothing = true ↔ t.text = ")" := by
  have hlookup : t.details.lookup "text" = some (.text t.text) := rfl
  simp [closesNothing, h, hlookup]

end Diagnostic

/-! ## Compiling -/

open Diagnostic (unmatchedAdvice outsideAdvice)

section Advice

variable {rule : Source.CalleeRule} {source : String} {ts : List Token} {f : Source.Fault}
  {d : Diagnostic}

theorem advice_at_end (ht : tokenize source = .ok ts) (hcode : d.code = .endOfInput)
    (hdetails : d.details = []) :
    d.advice source =
      if openingParens ts = closingParens ts then none
      else some (unmatchedAdvice (openingParens ts) (closingParens ts)) := by
  have hnothing : d.closesNothing = false := by simp [Diagnostic.closesNothing, hdetails]
  rw [Diagnostic.advice_eq_balanceAdvice (.inl hcode), Diagnostic.balanceAdvice_eq ht, hnothing]
  rfl

theorem exists_close_of_advice (ht : tokenize source = .ok ts)
    (hp : Source.parse rule ts = .error f) (hcode : d.code = f.code)
    (hdetails : d.details = f.details) (h : d.advice source = some outsideAdvice) :
    ∃ t, f = .unexpectedToken t ∧ t.isClose = true := by
  obtain ⟨hcodes, hnothing⟩ := Diagnostic.closesNothing_of_advice h
  rw [hcode] at hcodes
  cases f with
  | unexpectedToken t =>
    have htext := (Diagnostic.closesNothing_iff hdetails).mp hnothing
    exact ⟨t, rfl, Source.isClose_of_unexpectedToken ht hp htext⟩
  | endOfInput => simp [Diagnostic.closesNothing, hdetails, Source.Fault.details] at hnothing
  | invalidCallee => simp [Source.Fault.code] at hcodes

/-- Advice on the balance of parentheses is given for faults of parsing only. -/
theorem exists_parse_error_of_balance {options : Options} {failure : Failure}
    (h : compile options source = .error failure) :
    ∃ d : Diagnostic, failure = .diagnostic (d.advised source) ∧
      (d.code = .endOfInput ∨ d.code = .unexpectedToken →
        ∃ ts f, tokenize source = .ok ts ∧ Source.parse options.calleeRule ts = .error f ∧
          d.code = f.code ∧ d.details = f.details ∧ d.offset = f.offset) := by
  obtain ⟨d, hd, ⟨f, _, hf, _⟩ | hparse⟩ := compile_eq_error h
  · refine ⟨d, hd, fun hcodes => ?_⟩
    rw [hf] at hcodes
    cases f <;> simp [LexFault.code] at hcodes
  · exact ⟨d, hd, fun _ => hparse⟩

end Advice

/-- What is said about parentheses is true. At the end of the input more calls
were opened than closed. The counts that are told are those of the tokens, with
the parentheses inside of strings added, and they are told unless they are equal.
A closing parenthesis is said to be outside of any call only if all before it is
a program. -/
theorem paren_advice_truthful (options : Options) (source : String) (failure : Failure)
    (h : compile options source = .error failure) :
    ∃ d : Diagnostic, failure = .diagnostic d ∧
      (d.code = .endOfInput → ∃ ts, tokenize source = .ok ts ∧
        ts.countP Token.isClose < ts.countP Token.isOpen ∧
        ((∀ t ∈ ts, t.kind = .string → '(' ∉ t.text.toList ∧ ')' ∉ t.text.toList) →
          d.hints.suggestion =
            some (unmatchedAdvice (ts.countP Token.isOpen) (ts.countP Token.isClose))) ∧
        d.hints.suggestion =
          if openingParens ts = closingParens ts then none
          else some (unmatchedAdvice (openingParens ts) (closingParens ts))) ∧
      (d.code = .unexpectedToken → ∃ ts, tokenize source = .ok ts ∧
        (openingParens ts ≠ closingParens ts →
          d.hints.suggestion = some (unmatchedAdvice (openingParens ts) (closingParens ts)))) ∧
      (d.hints.suggestion = some outsideAdvice →
        ∃ pre t post p, tokenize source = .ok (pre ++ t :: post) ∧
          Source.parse options.calleeRule (pre ++ t :: post) = .error (.unexpectedToken t) ∧
          t.isClose = true ∧ d.offset = some t.offset ∧ (∀ u ∈ pre, u.offset < t.offset) ∧
          Source.parse options.calleeRule pre = .ok p) := by
  obtain ⟨d, rfl, hparse⟩ := exists_parse_error_of_balance h
  have hcode_eq : (d.advised source).code = d.code := rfl
  have hsuggestion : (d.advised source).hints.suggestion = d.advice source := rfl
  refine ⟨d.advised source, rfl, ?_⟩
  rw [hcode_eq, hsuggestion]
  refine ⟨fun hcode => ?_, fun hcode => ?_, fun hadvice => ?_⟩
  · obtain ⟨ts, f, ht, hp, hf, hdetails, _⟩ := hparse (.inl hcode)
    cases f with
    | unexpectedToken | invalidCallee => cases hf.symm.trans hcode
    | endOfInput offset =>
      have hcounts := Source.closes_lt_opens_of_endOfInput hp
      have hadvice := advice_at_end ht hcode hdetails
      refine ⟨ts, ht, hcounts, fun hstrings => hadvice.trans ?_, hadvice⟩
      have hopen := stringChars_count_eq_zero fun t ht hk => (hstrings t ht hk).1
      have hclose := stringChars_count_eq_zero fun t ht hk => (hstrings t ht hk).2
      rw [openingParens, closingParens, hopen, hclose, Nat.add_zero, Nat.add_zero,
        if_neg (Nat.ne_of_gt hcounts)]
  · obtain ⟨ts, _, ht, _⟩ := hparse (.inr hcode)
    refine ⟨ts, ht, fun hne => ?_⟩
    rw [Diagnostic.advice_eq_balanceAdvice (.inr hcode), Diagnostic.balanceAdvice_eq ht,
      if_neg hne]
  · obtain ⟨ts, f, ht, hp, hf, hdetails, hoffset⟩ :=
      hparse (Diagnostic.closesNothing_of_advice hadvice).1
    obtain ⟨t, rfl, hclose⟩ := exists_close_of_advice ht hp hf hdetails hadvice
    obtain ⟨pre, post, p, rfl, hpre⟩ := Source.parse_before_unexpected_close hp hclose
    have hbefore := (List.pairwise_append.mp (pairwise_offset_of_tokenize ht)).2.2
    exact ⟨pre, t, post, p, ht, hp, hclose, hoffset,
      fun u hu => hbefore u hu t List.mem_cons_self, hpre⟩

/-- In both sources the counts are equal. In the first the call is open and the
closing parenthesis is in a string; in the second the first parenthesis to close
ends the call of an opening one. -/
theorem paren_advice_truthful_equal_counts :
    (∃ d, compile {} "(f ')'" = .error (.diagnostic d) ∧ d.code = .endOfInput ∧
      d.hints.suggestion = none) ∧
    ∃ d pre t post p, compile { anyCallee := true } "((1))" = .error (.diagnostic d) ∧
      d.hints.suggestion = some "A ')' appears outside of any call" ∧
      tokenize "((1))" = .ok (pre ++ t :: post) ∧ d.offset = some t.offset ∧
      Source.parse .permissive pre = .ok p := by
  constructor
  · have ht : tokenize "(f ')'" = .ok [⟨.paren, "(", 0⟩, ⟨.name, "f", 1⟩, ⟨.string, ")", 3⟩] := by
      decide +kernel
    obtain ⟨d, hd, _, hcode, _⟩ :=
      @compile_reports_parsing {} _ _ (.endOfInput (some 6)) ht (Source.parse_of_outcome rfl)
    obtain ⟨e, he, hend, _⟩ := paren_advice_truthful {} "(f ')'" _ hd
    cases he
    obtain ⟨ts, hts, _, _, hsuggestion⟩ := hend hcode
    obtain rfl := Except.ok.inj (ht.symm.trans hts)
    exact ⟨d, hd, hcode, hsuggestion.trans (if_pos (by decide +kernel))⟩
  · have ht : tokenize "((1))" = .ok [⟨.paren, "(", 0⟩, ⟨.paren, "(", 1⟩, ⟨.number, "1", 2⟩,
        ⟨.paren, ")", 3⟩, ⟨.paren, ")", 4⟩] := by decide +kernel
    obtain ⟨d, hd, hraised, _, hcode, hdetails, _⟩ :=
      (Source.Fault.unexpectedToken ⟨.paren, ")", 4⟩).failure_raised
    have hc : compile { anyCallee := true } "((1))" =
        .error (.diagnostic (d.advised "((1))")) := by
      rw [compile_of_parse_error ht (Source.parse_of_outcome rfl), hd, Failure.hinted_of_raised hraised]
    have hadvice : d.advice "((1))" = some outsideAdvice := by
      have hnothing := (Diagnostic.closesNothing_iff hdetails).mpr rfl
      rw [Diagnostic.advice_eq_balanceAdvice (.inr hcode), Diagnostic.balanceAdvice_eq ht,
        if_pos (by decide +kernel), if_pos hnothing]
    obtain ⟨e, he, _, _, houtside⟩ := paren_advice_truthful _ _ _ hc
    cases he
    obtain ⟨pre, t, post, p, hts, _, _, hoffset, _, hpre⟩ := houtside hadvice
    exact ⟨_, pre, t, post, p, hc, hadvice, hts, hoffset, hpre⟩

end ParenCall
