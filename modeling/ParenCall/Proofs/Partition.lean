import ParenCall.Proofs.Lexing

/-! # Tokens as a partition of the text

Where tokens stand in a text is said by positions alone: each token occurs at
its offset, none overlaps the next, the characters that no token covers are
blank, and no number or name could be longer where it stands. A text has at
most one list of such tokens, and cutting it returns that list. The proof moves
a position through the text from left to right: passing a blank or a lexeme
keeps a partition of what lies behind the position, in both directions. -/

namespace ParenCall

namespace Token

/-- The characters that a token takes up in program text. -/
inductive Raw (t : Token) : List Char → Prop
  | paren (kind : t.kind = .paren) (text : t.text = "(" ∨ t.text = ")") : t.Raw t.text.toList
  | number (kind : t.kind = .number) (run : IsRun Char.isDigit t.text) : t.Raw t.text.toList
  | name (kind : t.kind = .name) (run : IsRun Char.isAlpha t.text) : t.Raw t.text.toList
  | string (kind : t.kind = .string) (quote : Quote) (unquoted : quote.mark ∉ t.text.toList) :
      t.Raw (quote.mark :: t.text.toList ++ [quote.mark])

def OccursIn (text : List Char) (t : Token) : Prop :=
  ∃ (raw : List Char) (n : Nat), t.Raw raw ∧ t.offset = n ∧ raw <+: text.drop n

/-- Whether a position lies in the token, its quotes included. -/
def Covers (t : Token) (i : Nat) : Prop := t.offset ≤ i ∧ i < t.endOffset

end Token

/-- The part of the text from `start` on consists of these tokens and of blanks
between them, and the tokens are as long as they can be. -/
structure Partition (text : List Char) (start : Nat) (ts : List Token) : Prop where
  occurs : ∀ t ∈ ts, t.OccursIn text
  within : ∀ t ∈ ts, start ≤ t.offset
  ordered : ts.Pairwise fun t u => t.endOffset ≤ u.offset
  gaps : ∀ (i : Nat) (c : Char), start ≤ i → text[i]? = some c → (∀ t ∈ ts, ¬ t.Covers i) →
    Text.isBlank c = true
  maximal : ∀ t ∈ ts, ∀ (i : Nat) (c : Char), t.endOffset = i → text[i]? = some c →
    t.kind.growsBy c = false

/-! ## Tokens and lexemes -/

namespace Lexeme

theorem toList_text_token (l : Lexeme) (n : Nat) : (l.token n).text.toList = l.text :=
  String.toList_ofList

theorem Proper.raw_token {l : Lexeme} (h : l.Proper) (n : Nat) : (l.token n).Raw l.raw := by
  have htext := l.toList_text_token n
  cases l with
  | openParen =>
    have hraw := Token.Raw.paren (t := openParen.token n) rfl (.inl rfl)
    rwa [htext] at hraw
  | closeParen =>
    have hraw := Token.Raw.paren (t := closeParen.token n) rfl (.inr rfl)
    rwa [htext] at hraw
  | number digits =>
    have hraw := Token.Raw.number (t := (number digits).token n) rfl h.wellSpelled
    rwa [htext] at hraw
  | string quote content =>
    have hquote : quote.mark ∉ ((string quote content).token n).text.toList := by
      rw [htext]
      exact h
    have hraw := Token.Raw.string rfl quote hquote
    rwa [htext] at hraw
  | name letters =>
    have hraw := Token.Raw.name (t := (name letters).token n) rfl h.wellSpelled
    rwa [htext] at hraw

theorem length_raw (l : Lexeme) :
    l.raw.length = l.text.length + if l.kind = .string then 2 else 0 := by
  cases l <;> simp [text, raw, kind]

theorem endOffset_token (l : Lexeme) (n : Nat) :
    (l.token n).endOffset = (n + l.raw.length : Nat) := by
  rw [Token.endOffset, ← String.length_toList, toList_text_token, length_raw]
  by_cases hstring : l.kind = .string
  · simp only [token, hstring, if_true]
    omega
  · simp only [token, hstring, if_false]
    omega

end Lexeme

theorem Token.Raw.exists_lexeme {t : Token} {raw : List Char} {n : Nat} (h : t.Raw raw)
    (hn : t.offset = n) : ∃ l : Lexeme, l.Proper ∧ l.raw = raw ∧ t = l.token n := by
  obtain ⟨kind, text, offset⟩ := t
  obtain rfl : offset = n := hn
  have htoken (k : Kind) : Token.mk k text n = Token.mk k (String.ofList text.toList) n := by
    rw [String.ofList_toList]
  cases h with
  | paren hk htext =>
    obtain rfl : kind = .paren := hk
    rcases htext with rfl | rfl
    · exact ⟨.openParen, trivial, by simp [Lexeme.raw], rfl⟩
    · exact ⟨.closeParen, trivial, by simp [Lexeme.raw], rfl⟩
  | number hk run =>
    obtain rfl : kind = .number := hk
    exact ⟨.number text.toList, run, rfl, htoken .number⟩
  | name hk run =>
    obtain rfl : kind = .name := hk
    exact ⟨.name text.toList, run, rfl, htoken .name⟩
  | string hk quote unquoted =>
    obtain rfl : kind = .string := hk
    exact ⟨.string quote text.toList, unquoted, rfl, htoken .string⟩

theorem Token.OccursIn.exists_lexeme {text : List Char} {t : Token} (h : t.OccursIn text) :
    ∃ (l : Lexeme) (n : Nat), l.Proper ∧ t = l.token n ∧ l.raw <+: text.drop n := by
  obtain ⟨raw, n, hraw, hn, hstarts⟩ := h
  obtain ⟨l, proper, rfl, rfl⟩ := hraw.exists_lexeme hn
  exact ⟨l, n, proper, rfl, hstarts⟩

namespace Partition

variable {text : List Char} {start : Nat} {ts : List Token}

/-! ## From the rest of the text to the text -/

theorem of_drop_eq_nil (htext : text.drop start = []) : Partition text start [] where
  occurs := by simp
  within := by simp
  ordered := .nil
  gaps := by
    intro i c hi hc
    have hlen := List.drop_eq_nil_iff.mp htext
    rw [List.getElem?_eq_none (by omega)] at hc
    contradiction
  maximal := by simp

theorem of_blank {c : Char} {cs : List Char} (htext : text.drop start = c :: cs)
    (blank : Text.isBlank c = true) (h : Partition text (start + 1) ts) :
    Partition text start ts where
  occurs := h.occurs
  within := by
    intro t ht
    have := h.within t ht
    omega
  ordered := h.ordered
  gaps := by
    intro i d hi hd huncovered
    by_cases heq : i = start
    · subst heq
      have hc : text[i]? = some c := by rw [← List.head?_drop, htext, List.head?_cons]
      obtain rfl : c = d := by simpa [hc] using hd
      exact blank
    · exact h.gaps i d (by omega) hd huncovered
  maximal := h.maximal

theorem of_lexeme {l : Lexeme} {rest : List Char} (htext : text.drop start = l.raw ++ rest)
    (proper : l.Proper) (ends : l.EndsBefore rest)
    (h : Partition text (start + l.raw.length) ts) :
    Partition text start (l.token start :: ts) where
  occurs := by
    intro t ht
    cases ht with
    | head => exact ⟨l.raw, start, proper.raw_token start, rfl, rest, htext.symm⟩
    | tail _ ht => exact h.occurs t ht
  within := by
    intro t ht
    cases ht with
    | head => exact Int.le_refl _
    | tail _ ht =>
      have := h.within t ht
      omega
  ordered := by
    refine List.pairwise_cons.mpr ⟨fun u hu => ?_, h.ordered⟩
    rw [l.endOffset_token]
    exact h.within u hu
  gaps := by
    intro i c hi hc huncovered
    have hfirst := huncovered _ List.mem_cons_self
    rw [Token.Covers, l.endOffset_token] at hfirst
    have hbehind : start + l.raw.length ≤ i := by
      have hoffset : (l.token start).offset = start := rfl
      omega
    exact h.gaps i c hbehind hc fun t ht => huncovered t (List.mem_cons_of_mem _ ht)
  maximal := by
    intro t ht i c hi hc
    cases ht with
    | head =>
      rw [l.endOffset_token] at hi
      obtain rfl : start + l.raw.length = i := by omega
      have hrest : rest.head? = some c := by
        rwa [← List.head?_drop, ← List.drop_drop, htext, List.drop_left] at hc
      exact ends c hrest
    | tail _ ht => exact h.maximal t ht i c hi hc

/-! ## From the text to the rest of the text -/

theorem eq_nil_of_drop_eq_nil (htext : text.drop start = []) (h : Partition text start ts) :
    ts = [] := by
  refine List.eq_nil_iff_forall_not_mem.mpr fun t ht => ?_
  obtain ⟨l, n, proper, rfl, hstarts⟩ := (h.occurs t ht).exists_lexeme
  obtain ⟨c, cs, hraw, _⟩ := proper.head
  have hn : (start : Int) ≤ n := h.within _ ht
  have hdrop : text.drop n = [] := by
    rw [List.drop_eq_nil_iff] at htext ⊢
    omega
  rw [hdrop, hraw] at hstarts
  simp at hstarts

theorem after_blank {c : Char} {cs : List Char} (htext : text.drop start = c :: cs)
    (blank : Text.isBlank c = true) (h : Partition text start ts) :
    Partition text (start + 1) ts where
  occurs := h.occurs
  within := by
    intro t ht
    obtain ⟨l, n, proper, rfl, hstarts⟩ := (h.occurs t ht).exists_lexeme
    have hn : (start : Int) ≤ n := h.within _ ht
    -- a token that started here would start with a blank
    have hne : n ≠ start := by
      rintro rfl
      obtain ⟨d, ds, hraw, hd⟩ := proper.head
      rw [htext, hraw, List.cons_prefix_cons] at hstarts
      rw [hstarts.1, blank] at hd
      contradiction
    have hoffset : (l.token n).offset = n := rfl
    omega
  ordered := h.ordered
  gaps := fun i d hi => h.gaps i d (by omega)
  maximal := h.maximal

theorem exists_first {c : Char} {cs : List Char} (htext : text.drop start = c :: cs)
    (hblank : Text.isBlank c = false) (h : Partition text start ts) :
    ∃ t us, ts = t :: us ∧ t.offset = start := by
  have hc : text[start]? = some c := by rw [← List.head?_drop, htext, List.head?_cons]
  have hcovered : ∃ t ∈ ts, t.Covers start := by
    by_contra hnone
    have := h.gaps start c (Nat.le_refl _) hc fun t ht hcover => hnone ⟨t, ht, hcover⟩
    rw [hblank] at this
    contradiction
  obtain ⟨t, ht, hcover⟩ := hcovered
  cases ht with
  | head us =>
    have hlow := h.within t List.mem_cons_self
    exact ⟨t, us, rfl, Int.le_antisymm hcover.1 hlow⟩
  | @tail u us ht =>
    -- a token before this one would have to end before it starts
    obtain ⟨l, n, proper, rfl, _⟩ := (h.occurs u List.mem_cons_self).exists_lexeme
    obtain ⟨d, ds, hraw, _⟩ := proper.head
    have hlow : (start : Int) ≤ n := h.within _ List.mem_cons_self
    have hend := (List.pairwise_cons.mp h.ordered).1 t ht
    rw [l.endOffset_token, hraw, List.length_cons] at hend
    have hstart := hcover.1
    omega

theorem after_lexeme {t : Token} {us : List Token} (h : Partition text start (t :: us))
    (ht : t.offset = start) : ∃ l : Lexeme, l.Proper ∧ t = l.token start ∧
      text.drop start = l.raw ++ text.drop (start + l.raw.length) ∧
      l.EndsBefore (text.drop (start + l.raw.length)) ∧
      Partition text (start + l.raw.length) us := by
  obtain ⟨l, n, proper, rfl, hstarts⟩ := (h.occurs t List.mem_cons_self).exists_lexeme
  obtain rfl : n = start := Int.ofNat.inj ht
  obtain ⟨hbefore, hordered⟩ := List.pairwise_cons.mp h.ordered
  rw [l.endOffset_token] at hbefore
  refine ⟨l, proper, rfl, ?_, ?_, ?_⟩
  · rw [← List.drop_drop]
    exact (List.prefix_iff_eq_append.mp hstarts).symm
  · intro c hc
    rw [Option.mem_def, List.head?_drop] at hc
    exact h.maximal _ List.mem_cons_self _ c (l.endOffset_token n) hc
  · refine ⟨fun u hu => h.occurs u (List.mem_cons_of_mem _ hu), hbefore, hordered, ?_,
      fun u hu => h.maximal u (List.mem_cons_of_mem _ hu)⟩
    intro i c hi hc huncovered
    refine h.gaps i c (by omega) hc fun u hu => ?_
    cases hu with
    | head =>
      rw [Token.Covers, l.endOffset_token]
      omega
    | tail _ hu => exact huncovered u hu

/-! ## The order of tokens -/

theorem pairwise_offset_lt (h : Partition text start ts) :
    ts.Pairwise fun t u => t.offset < u.offset := by
  refine h.ordered.imp_of_mem fun {t u} ht _ hend => ?_
  obtain ⟨l, n, proper, rfl, _⟩ := (h.occurs t ht).exists_lexeme
  obtain ⟨c, cs, hraw, _⟩ := proper.head
  rw [l.endOffset_token, hraw, List.length_cons] at hend
  have hoffset : (l.token n).offset = n := rfl
  omega

/-! ## Partitions are what cutting makes -/

theorem exists_cut (h : Partition text start ts) :
    ∃ ps, Cut start (text.drop start) ps ∧ ts = ps.map Placed.token := by
  -- on what is left of the text: a blank and a lexeme both move the position on
  induction hk : text.length - start using Nat.strong_induction_on generalizing start ts with
  | _ k ih =>
    cases htext : text.drop start with
    | nil => exact ⟨[], .done, h.eq_nil_of_drop_eq_nil htext⟩
    | cons c cs =>
      have hlt : start < text.length := by
        by_contra hge
        rw [List.drop_eq_nil_iff.mpr (by omega)] at htext
        contradiction
      cases hblank : Text.isBlank c with
      | true =>
        obtain ⟨ps, hcut, rfl⟩ := ih _ (by omega) (h.after_blank htext hblank) rfl
        have hrest : text.drop (start + 1) = cs := by rw [← List.tail_drop, htext, List.tail_cons]
        exact ⟨ps, .blank hblank (hrest ▸ hcut), rfl⟩
      | false =>
        obtain ⟨t, us, rfl, ht⟩ := h.exists_first htext hblank
        obtain ⟨l, proper, rfl, hsplit, ends, hrest⟩ := h.after_lexeme ht
        have hpos : 0 < l.raw.length := by
          obtain ⟨d, ds, hraw, _⟩ := proper.head
          simp [hraw]
        obtain ⟨ps, hcut, rfl⟩ := ih _ (by omega) hrest rfl
        rw [← htext, hsplit]
        exact ⟨_, .lexeme proper ends hcut, rfl⟩

end Partition

theorem Cut.partition {text cs : List Char} {start : Nat} {ps : List Placed}
    (h : Cut start cs ps) (htext : text.drop start = cs) :
    Partition text start (ps.map Placed.token) := by
  induction h with
  | done => exact .of_drop_eq_nil htext
  | @blank start c cs ps blank _ ih =>
    have hrest : text.drop (start + 1) = cs := by rw [← List.tail_drop, htext, List.tail_cons]
    exact .of_blank htext blank (ih hrest)
  | @lexeme start l cs ps proper ends _ ih =>
    have hrest : text.drop (start + l.raw.length) = cs := by
      rw [← List.drop_drop, htext, List.drop_left]
    exact .of_lexeme htext proper ends (ih hrest)

theorem pairwise_offset_of_tokenize {source : String} {ts : List Token}
    (h : tokenize source = .ok ts) : ts.Pairwise fun t u => t.offset < u.offset := by
  obtain ⟨ps, hcut, rfl⟩ := tokenize_eq_ok_iff_cut.mp h
  have hpartition : Partition source.toList 0 (ps.map Placed.token) := hcut.partition rfl
  exact hpartition.pairwise_offset_lt

/-- Cutting a source succeeds with exactly those tokens that partition it. -/
theorem tokenize_eq_ok_iff_partition (source : String) (ts : List Token) :
    tokenize source = .ok ts ↔ Partition source.toList 0 ts := by
  rw [tokenize_eq_ok_iff_cut]
  constructor
  · rintro ⟨ps, hcut, rfl⟩
    exact hcut.partition rfl
  · intro h
    exact h.exists_cut

end ParenCall
