import ParenCall.Proofs.Compilation
import ParenCall.Proofs.Lines
import ParenCall.Proofs.Partition
import ParenCall.Proofs.Prefixes
import ParenCall.Proofs.Stops

/-! # Where faults are reported

Every fault in a source is reported at a place in it: at the character where
cutting stops, at the first character of the token that parsing refuses, or
right behind the last token. The character there, or just before it at the end
of the input, is not blank, since blanks are neither faults nor parts of tokens
at either end. The line it is on is therefore never empty when it is trimmed. -/

namespace ParenCall

/-! ## Characters that faults are about -/

theorem exists_char_of_token {source : String} {ts : List Token} {t : Token}
    (ht : tokenize source = .ok ts) (hmem : t ∈ ts) :
    ∃ (n : Nat) (c : Char) (cs : List Char), t.offset = n ∧ t.Raw (c :: cs) ∧
      c :: cs <+: source.toList.drop n ∧ source.toList[n]? = some c ∧ Text.isBlank c = false := by
  obtain ⟨ps, hcut, rfl⟩ := tokenize_eq_ok_iff_cut.mp ht
  have hpartition : Partition source.toList 0 (ps.map Placed.token) := hcut.partition rfl
  obtain ⟨l, n, proper, rfl, hstands⟩ := (hpartition.occurs t hmem).exists_lexeme
  obtain ⟨c, cs, hraw, hb⟩ := proper.head
  have hraw' := proper.raw_token n
  rw [hraw] at hraw' hstands
  refine ⟨n, c, cs, rfl, hraw', hstands, ?_, hb⟩
  obtain ⟨rest, hrest⟩ := hstands
  rw [← List.head?_drop, ← hrest]
  rfl

/-! ## The end of the last token -/

theorem Lexeme.Proper.last {l : Lexeme} (h : l.Proper) :
    ∃ cs c, l.raw = cs ++ [c] ∧ Text.isBlank c = false := by
  cases l with
  | openParen => exact ⟨[], '(', rfl, by decide⟩
  | closeParen => exact ⟨[], ')', rfl, by decide⟩
  | number digits =>
    have hc : Token.Kind.number.growsBy (digits.getLast h.1) = true :=
      h.2 _ (List.getLast_mem h.1)
    exact ⟨_, _, (List.dropLast_append_getLast h.1).symm,
      Token.Kind.isBlank_eq_false_of_growsBy hc⟩
  | string quote content =>
    exact ⟨quote.mark :: content, quote.mark, rfl, by cases quote <;> decide⟩
  | name letters =>
    have hc : Token.Kind.name.growsBy (letters.getLast h.1) = true :=
      h.2 _ (List.getLast_mem h.1)
    exact ⟨_, _, (List.dropLast_append_getLast h.1).symm,
      Token.Kind.isBlank_eq_false_of_growsBy hc⟩

theorem Cut.blank_of_nil {offset : Nat} {cs : List Char} {ps : List Placed}
    (h : Cut offset cs ps) (hps : ps = []) : ∀ c ∈ cs, Text.isBlank c = true := by
  induction h with
  | done => simp
  | blank blank _ ih =>
    intro c hc
    cases hc with
    | head => exact blank
    | tail _ hc => exact ih hps c hc
  | lexeme => contradiction

theorem Cut.last {offset : Nat} {cs : List Char} {ps : List Placed} (h : Cut offset cs ps)
    {p : Placed} (hp : ps.getLast? = some p) :
    ∃ before after, cs = before ++ p.lexeme.raw ++ after ∧ p.offset = offset + before.length ∧
      p.lexeme.Proper ∧ ∀ c ∈ after, Text.isBlank c = true := by
  induction h with
  | done => contradiction
  | @blank offset c cs ps blank _ ih =>
    obtain ⟨before, after, rfl, hoffset, proper, hafter⟩ := ih hp
    refine ⟨c :: before, after, rfl, ?_, proper, hafter⟩
    rw [hoffset, List.length_cons]
    omega
  | @lexeme offset l cs ps proper ends rest ih =>
    cases ps with
    | nil =>
      cases hp
      exact ⟨[], cs, rfl, rfl, proper, rest.blank_of_nil rfl⟩
    | cons q qs =>
      obtain ⟨before, after, rfl, hoffset, proper', hafter⟩ := ih hp
      refine ⟨l.raw ++ before, after, by simp, ?_, proper', hafter⟩
      rw [hoffset, List.length_append]
      omega

theorem rdropWhile_append_blanks {cs after : List Char} {c : Char} (hc : Text.isBlank c = false)
    (hafter : ∀ d ∈ after, Text.isBlank d = true) :
    (cs ++ [c] ++ after).rdropWhile Text.isBlank = cs ++ [c] := by
  have hblank : ∀ d ∈ after.reverse, Text.isBlank d = true :=
    fun d hd => hafter d (List.mem_reverse.mp hd)
  rw [List.rdropWhile, List.reverse_append, List.dropWhile_append_of_pos hblank]
  simp [hc]

theorem exists_char_of_last {source : String} {ts : List Token} {last : Token}
    (ht : tokenize source = .ok ts) (hlast : ts.getLast? = some last) :
    ∃ (i : Nat) (c : Char), last.endOffset = (i + 1 : Nat) ∧ source.toList[i]? = some c ∧
      Text.isBlank c = false ∧ (source.toList.rdropWhile Text.isBlank).length = i + 1 := by
  obtain ⟨ps, hcut, rfl⟩ := tokenize_eq_ok_iff_cut.mp ht
  rw [List.getLast?_map] at hlast
  obtain ⟨p, hp, rfl⟩ := Option.map_eq_some_iff.mp hlast
  obtain ⟨before, after, htext, hoffset, proper, hafter⟩ := hcut.last hp
  obtain ⟨cs, c, hraw, hb⟩ := proper.last
  rw [hraw, ← List.append_assoc] at htext
  refine ⟨(before ++ cs).length, c, ?_, ?_, hb, ?_⟩
  · rw [Placed.token, Lexeme.endOffset_token, hoffset, hraw, Nat.zero_add, ← List.length_append,
      ← List.append_assoc, List.length_append, List.length_singleton]
  · rw [htext, List.append_assoc, List.getElem?_append_right (Nat.le_refl _), Nat.sub_self]
    rfl
  · rw [htext, rdropWhile_append_blanks hb hafter, List.length_append, List.length_singleton]

/-! ## Compiling -/

/-- What a fault at an offset is about: the character where cutting stops, or
the token that parsing refuses, which starts with the character. -/
inductive Offends (rule : Source.CalleeRule) (source : String) (n : Nat) (c : Char) : Prop
  | character (stops : tokenize source = .error (.ofStop c n))
  | token {ts : List Token} {t : Token} {cs : List Char} (cut : tokenize source = .ok ts)
      (refused : Source.parse rule ts = .error (.unexpectedToken t) ∨
        Source.parse rule ts = .error (.invalidCallee t))
      (mem : t ∈ ts) (offset : t.offset = n) (raw : t.Raw (c :: cs))
      (stands : c :: cs <+: source.toList.drop n)

theorem Source.parse_eq_error_token {rule : CalleeRule} {ts : List Token} {f : Fault}
    (h : parse rule ts = .error f) :
    (∃ t ∈ ts, f = .unexpectedToken t ∨ f = .invalidCallee t) ∨
      ∃ last, ts.getLast? = some last ∧ f = .endOfInput (some last.endOffset) := by
  rcases parse_eq_error h with hread | ⟨_, last, _, _, hlast, hf⟩
  · obtain ⟨pre, t, post, r, rfl, _, hrefused⟩ := Reading.readAll_eq_error hread
    cases hrefused with
    | callee => exact .inl ⟨t, by simp, .inr rfl⟩
    | token => exact .inl ⟨t, by simp, .inl rfl⟩
  · exact .inr ⟨last, hlast, hf⟩

/-- The place that a diagnostic tells: the offset, and the position of a
character that is not blank right there or right before it. -/
structure Diagnostic.Points (source : String) (d : Diagnostic) (n i : Nat) : Prop where
  offset : d.offset = some (n : Int)
  near : n = i ∨ n = i + 1
  solid : ∃ c, source.toList[i]? = some c ∧ Text.isBlank c = false

theorem Diagnostic.Points.length_le {source : String} {d : Diagnostic} {n i : Nat}
    (h : d.Points source n i) : n ≤ source.length := by
  obtain ⟨c, hc, _⟩ := h.solid
  obtain ⟨hi, _⟩ := List.getElem?_eq_some_iff.mp hc
  rw [String.length_toList] at hi
  have := h.near
  omega

theorem Diagnostic.Points.context {source : String} {d : Diagnostic} {n i : Nat}
    (h : d.Points source n i) :
    ∃ line, (d.advised source).hints.context = some line ∧ line ≠ "" ∧
      (source.toList.splitOn '\n')[(source.toList.take n).count '\n']?.map Text.trim =
        some line.toList ∧
      Text.Covers source.toList line.toList i := by
  obtain ⟨c, hc, hb⟩ := h.solid
  obtain ⟨line, hline, hrest⟩ := Text.lineContext_next_to hc hb h.near
  refine ⟨line, ?_, hrest⟩
  show d.offset.bind (Text.lineContext source) = some line
  rw [h.offset, Option.bind_some, hline]

/-- The diagnostic is about the character or token at its offset. -/
def Diagnostic.Blames (rule : Source.CalleeRule) (source : String) (d : Diagnostic) : Prop :=
  d.code ≠ .endOfInput ∧
    ∃ n c, d.Points source n n ∧ source.toList[n]? = some c ∧ Offends rule source n c

/-- The diagnostic is about the end of the last token. -/
def Diagnostic.BlamesEnd (source : String) (d : Diagnostic) : Prop :=
  d.code = .endOfInput ∧
    ∃ i ts last, d.Points source (i + 1) i ∧
      (source.toList.rdropWhile Text.isBlank).length = i + 1 ∧
      tokenize source = .ok ts ∧ ts.getLast? = some last ∧ last.endOffset = (i + 1 : Nat)

section Blames

variable {rule : Source.CalleeRule} {source : String} {d : Diagnostic} {ts : List Token}

theorem blames_of_lexFault {f : LexFault} (ht : tokenize source = .error f)
    (hcode : d.code = f.code) (hoffset : d.offset = some (f.offset : Int)) :
    d.Blames rule source := by
  obtain ⟨c, hf, hc, hb⟩ := exists_char_of_lexFault ht
  refine ⟨?_, f.offset, c, ⟨hoffset, .inl rfl, c, hc, hb⟩, hc, .character (hf ▸ ht)⟩
  rw [hcode]
  cases f <;> simp [LexFault.code]

theorem blames_of_refused {t : Token} {f : Source.Fault} (ht : tokenize source = .ok ts)
    (hp : Source.parse rule ts = .error f) (hmem : t ∈ ts)
    (hf : f = .unexpectedToken t ∨ f = .invalidCallee t) (hcode : d.code = f.code)
    (hoffset : d.offset = f.offset) : d.Blames rule source := by
  obtain ⟨n, c, cs, hn, hraw, hstands, hc, hb⟩ := exists_char_of_token ht hmem
  rcases hf with rfl | rfl
  · rw [Source.Fault.offset, hn] at hoffset
    exact ⟨by simp [hcode, Source.Fault.code], n, c, ⟨hoffset, .inl rfl, c, hc, hb⟩, hc,
      .token ht (.inl hp) hmem hn hraw hstands⟩
  · rw [Source.Fault.offset, hn] at hoffset
    exact ⟨by simp [hcode, Source.Fault.code], n, c, ⟨hoffset, .inl rfl, c, hc, hb⟩, hc,
      .token ht (.inr hp) hmem hn hraw hstands⟩

theorem blamesEnd_of_last {last : Token} (ht : tokenize source = .ok ts)
    (hlast : ts.getLast? = some last) (hcode : d.code = .endOfInput)
    (hoffset : d.offset = some last.endOffset) : d.BlamesEnd source := by
  obtain ⟨i, c, hend, hc, hb, hlength⟩ := exists_char_of_last ht hlast
  rw [hend] at hoffset
  exact ⟨hcode, i, ts, last, ⟨hoffset, .inr rfl, c, hc, hb⟩, hlength, ht, hlast, hend⟩

theorem blames_of_compile_error {options : Options} {failure : Failure}
    (h : compile options source = .error failure) :
    ∃ d : Diagnostic, failure = .diagnostic (d.advised source) ∧
      (d.Blames options.calleeRule source ∨ d.BlamesEnd source) := by
  obtain ⟨d, hd, ⟨f, ht, hcode, _, hoffset⟩ | ⟨ts, f, ht, hp, hcode, _, hoffset⟩⟩ :=
    compile_eq_error h
  · exact ⟨d, hd, .inl (blames_of_lexFault ht hcode hoffset)⟩
  · rcases Source.parse_eq_error_token hp with ⟨t, hmem, hf⟩ | ⟨last, hlast, rfl⟩
    · exact ⟨d, hd, .inl (blames_of_refused ht hp hmem hf hcode hoffset)⟩
    · exact ⟨d, hd, .inr (blamesEnd_of_last ht hlast hcode hoffset)⟩

end Blames

/-- Every failure is reported at an offset within the source. At the end of the
input that is the end of the last token, behind which all is blank, and
otherwise the character that stops the cutting or starts the refused token. The
context is the trimmed line of the offset; it is not empty, and the character in
question is on it. -/
theorem compile_error_located (options : Options) (source : String) (failure : Failure)
    (h : compile options source = .error failure) :
    ∃ (d : Diagnostic) (n : Nat) (line : String),
      failure = .diagnostic d ∧ d.offset = some (n : Int) ∧ n ≤ source.length ∧
      (d.code = .endOfInput → 0 < n ∧ n = (source.toList.rdropWhile Text.isBlank).length ∧
        ∃ ts last, tokenize source = .ok ts ∧ ts.getLast? = some last ∧ last.endOffset = n) ∧
      (d.code ≠ .endOfInput →
        ∃ c, source.toList[n]? = some c ∧ Offends options.calleeRule source n c) ∧
      d.hints.context = some line ∧ line ≠ "" ∧
      (source.toList.splitOn '\n')[(source.toList.take n).count '\n']?.map Text.trim =
        some line.toList ∧
      Text.Covers source.toList line.toList (if d.code = .endOfInput then n - 1 else n) := by
  obtain ⟨d, rfl, ⟨hcode, n, c, hpoints, hc, hoffends⟩ |
    ⟨hcode, i, ts, last, hpoints, hlength, ht, hlast, hend⟩⟩ := blames_of_compile_error h
  · obtain ⟨line, hcontext, hne, hline, hcovers⟩ := hpoints.context
    have hcode' : (d.advised source).code ≠ .endOfInput := hcode
    refine ⟨d.advised source, n, line, rfl, hpoints.offset, hpoints.length_le,
      fun he => absurd he hcode', fun _ => ⟨c, hc, hoffends⟩, hcontext, hne, hline, ?_⟩
    rwa [if_neg hcode']
  · obtain ⟨line, hcontext, hne, hline, hcovers⟩ := hpoints.context
    have hcode' : (d.advised source).code = .endOfInput := hcode
    refine ⟨d.advised source, i + 1, line, rfl, hpoints.offset, hpoints.length_le,
      fun _ => ⟨Nat.succ_pos i, hlength.symm, ts, last, ht, hlast, hend⟩,
      fun hn => absurd hcode' hn, hcontext, hne, hline, ?_⟩
    rwa [if_pos hcode']

/-- The last token is a string over two lines, and its end is where the second
of them ends; only blanks follow. -/
theorem compile_error_located_open_call :
    let source := "(f 'a\n b'\n \n"
    ∃ d, compile {} source = .error (.diagnostic d) ∧ d.code = .endOfInput ∧
      d.offset = some 9 ∧ d.hints.context = some "b'" := by
  intro source
  have ht : tokenize source = .ok [⟨.paren, "(", 0⟩, ⟨.name, "f", 1⟩, ⟨.string, "a\n b", 3⟩] := by
    decide +kernel
  obtain ⟨e, he, _, hcode, _⟩ :=
    @compile_reports_parsing {} _ _ (.endOfInput (some 9)) ht (Source.parse_of_outcome rfl)
  obtain ⟨d, n, line, hd, hoffset, _, hend, _, hcontext, _, hline, _⟩ :=
    compile_error_located {} source _ he
  cases hd
  obtain rfl : n = 9 := (hend hcode).2.1.trans (by decide +kernel)
  have hshown : (source.toList.splitOn '\n')[(source.toList.take 9).count '\n']?.map Text.trim =
      some "b'".toList := by decide +kernel
  obtain rfl : "b'" = line := String.toList_inj.mp (Option.some.inj (hshown.symm.trans hline))
  exact ⟨e, he, hcode, hoffset, hcontext⟩

end ParenCall
