import ParenCall.Proofs.Concatenation
import ParenCall.Proofs.Partition
import ParenCall.Proofs.Stops

/-! # Blanks between tokens

Blanks may be put into a source wherever no token is torn apart: between two
tokens, also where these touch, next to a token, or among other blanks. A cut
falls into two cuts at such a position, and the second of them only moves when
blanks come before it. The tokens keep their kinds and texts, and these are all
that parsing looks at: offsets go into the report of a fault and nowhere else. -/

namespace ParenCall

/-! ## Cutting -/

theorem Cut.bounds {offset : Nat} {cs : List Char} {ps : List Placed} (h : Cut offset cs ps) :
    ∀ p ∈ ps, offset ≤ p.offset ∧ p.offset < offset + cs.length := by
  induction h with
  | done => simp
  | blank _ _ ih =>
    intro p hp
    have hbounds := ih p hp
    rw [List.length_cons]
    omega
  | @lexeme offset l cs ps proper _ _ ih =>
    obtain ⟨c, raw, hraw, _⟩ := proper.head
    intro p hp
    rw [hraw, List.length_append, List.length_cons]
    cases hp with
    | head => simp only; omega
    | tail _ hp =>
      have hbounds := ih p hp
      rw [hraw, List.length_cons] at hbounds
      omega

/-- A position that is not inside of a lexeme. -/
def Placed.Spares (k : Nat) (p : Placed) : Prop :=
  ¬ (p.offset < k ∧ k < p.offset + p.lexeme.raw.length)

/-- A cut falls into two where no lexeme is torn apart. -/
theorem Cut.split {offset : Nat} {a b : List Char} {ps : List Placed} (h : Cut offset (a ++ b) ps)
    (hspares : ∀ p ∈ ps, p.Spares (offset + a.length)) :
    ∃ qs rs, ps = qs ++ rs ∧ Cut offset a qs ∧ Cut (offset + a.length) b rs := by
  generalize htext : a ++ b = cs at h
  induction h generalizing a with
  | done =>
    obtain ⟨rfl, rfl⟩ := List.append_eq_nil_iff.mp htext
    exact ⟨[], [], rfl, .done, .done⟩
  | @blank offset c cs ps blank rest ih =>
    cases a with
    | nil =>
      obtain rfl : b = c :: cs := htext
      exact ⟨[], ps, rfl, .done, .blank blank rest⟩
    | cons d a =>
      obtain ⟨rfl, hrest⟩ := List.cons.inj htext
      have hlength : offset + (d :: a).length = offset + 1 + a.length := by
        rw [List.length_cons]
        omega
      rw [hlength] at hspares ⊢
      obtain ⟨qs, rs, rfl, hqs, hrs⟩ := ih hspares hrest
      exact ⟨qs, rs, rfl, .blank blank hqs, hrs⟩
  | @lexeme offset l cs ps proper ends rest ih =>
    by_cases ha : a = []
    · subst ha
      obtain rfl : b = l.raw ++ cs := htext
      exact ⟨[], _, rfl, .done, .lexeme proper ends rest⟩
    · -- the position is behind the first character of the lexeme, so it is behind all of it
      have hbehind : l.raw.length ≤ a.length := by
        have hfirst := hspares ⟨l, offset⟩ List.mem_cons_self
        have hpos := List.length_pos_iff.mpr ha
        unfold Placed.Spares at hfirst
        simp only at hfirst
        omega
      obtain ⟨a, rfl⟩ : l.raw <+: a := by
        refine List.prefix_of_prefix_length_le ?_ (List.prefix_append a b) hbehind
        rw [htext]
        exact List.prefix_append l.raw cs
      rw [List.append_assoc] at htext
      obtain rfl := List.append_cancel_left htext
      rw [List.length_append, ← Nat.add_assoc] at hspares ⊢
      obtain ⟨qs, rs, rfl, hqs, hrs⟩ := ih (fun p hp => hspares p (List.mem_cons_of_mem _ hp)) rfl
      exact ⟨⟨l, offset⟩ :: qs, rs, rfl, .lexeme proper ends.of_append hqs, hrs⟩

/-- Blanks between two cuts only move the second one. -/
theorem Cut.scanFrom_insert {offset : Nat} {a b w : List Char} {qs rs : List Placed}
    (ha : Cut offset a qs) (hb : Cut (offset + a.length) b rs) (hne : w ≠ [])
    (hw : ∀ c ∈ w, Text.isBlank c = true) :
    scanFrom offset (a ++ (w ++ b)) = ⟨qs ++ rs.map (Placed.shift w.length), none⟩ := by
  have hends : ∀ l : Lexeme, l.EndsBefore (w ++ b) := by
    intro l
    obtain ⟨c, cs, rfl⟩ := List.exists_cons_of_ne_nil hne
    exact l.endsBefore_blank (hw c List.mem_cons_self) _
  rw [ha.scanFrom_append hends, scanFrom_blanks hw, scanFrom_add, hb.scanFrom_eq]
  rfl

/-! ## Tokens -/

/-- Moved on by `n` if it starts at `k` or behind it. -/
def Token.moveFrom (k n : Nat) (t : Token) : Token :=
  if (k : Int) ≤ t.offset then t.shift n else t

theorem Token.spelling_moveFrom (k n : Nat) (t : Token) :
    (t.moveFrom k n).spelling = t.spelling := by
  unfold Token.moveFrom
  split <;> rfl

theorem Token.moveFrom_zero (k : Nat) (t : Token) : t.moveFrom k 0 = t := by
  simp [Token.moveFrom, Token.shift]

/-- Of two lists of lexemes, one before and one behind a position, only the second
one moves. -/
theorem map_moveFrom_append {k : Nat} {qs rs : List Placed} (hqs : ∀ p ∈ qs, p.offset < k)
    (hrs : ∀ p ∈ rs, k ≤ p.offset) (n : Nat) :
    ((qs ++ rs).map Placed.token).map (Token.moveFrom k n) =
      (qs ++ rs.map (Placed.shift n)).map Placed.token := by
  rw [List.map_append, List.map_append, List.map_append, List.map_map, List.map_map, List.map_map]
  congr 1
  · refine List.map_congr_left fun p hp => ?_
    have hlt : ¬ (k : Int) ≤ p.token.offset := Int.not_le.mpr (Int.ofNat_lt.mpr (hqs p hp))
    exact if_neg hlt
  · refine List.map_congr_left fun p hp => ?_
    have hle : (k : Int) ≤ p.token.offset := Int.ofNat_le.mpr (hrs p hp)
    exact (if_pos hle).trans (p.token_shift n).symm

theorem Placed.spares_of_token {k : Nat} {p : Placed}
    (h : ¬ (p.token.offset < k ∧ (k : Int) < p.token.endOffset)) : p.Spares k := by
  have hend : p.token.endOffset = (p.offset + p.lexeme.raw.length : Nat) :=
    p.lexeme.endOffset_token p.offset
  have hoffset : p.token.offset = p.offset := rfl
  unfold Placed.Spares
  omega

/-- The source with a text put in at a position. -/
def insertAt (source : String) (k : Nat) (w : String) : String :=
  String.ofList (source.toList.take k ++ (w.toList ++ source.toList.drop k))

theorem tokenize_insertAt {source w : String} {k : Nat} {ts : List Token}
    (ht : tokenize source = .ok ts) (hk : k ≤ source.length)
    (hspares : ∀ t ∈ ts, ¬ (t.offset < k ∧ (k : Int) < t.endOffset))
    (hw : ∀ c ∈ w.toList, Text.isBlank c = true) :
    tokenize (insertAt source k w) = .ok (ts.map (Token.moveFrom k w.length)) := by
  obtain ⟨ps, hcut, rfl⟩ := tokenize_eq_ok_iff_cut.mp ht
  by_cases hempty : w.toList = []
  · have hsame : insertAt source k w = source := by simp [insertAt, hempty]
    have hlength : w.length = 0 := by rw [← String.length_toList, hempty, List.length_nil]
    rw [hsame, ht, hlength, funext (Token.moveFrom_zero k)]
    simp
  · have hlength : (source.toList.take k).length = k :=
      List.length_take_of_le (by rwa [String.length_toList])
    have hps : ∀ p ∈ ps, p.Spares (0 + (source.toList.take k).length) := by
      intro p hp
      rw [hlength, Nat.zero_add]
      exact Placed.spares_of_token (hspares p.token (List.mem_map_of_mem hp))
    rw [← List.take_append_drop k source.toList] at hcut
    obtain ⟨qs, rs, rfl, hqs, hrs⟩ := hcut.split hps
    have hscan := hqs.scanFrom_insert hrs hempty hw
    rw [hlength, Nat.zero_add] at hrs
    have hbefore : ∀ p ∈ qs, p.offset < k := by
      intro p hp
      have hbounds := (hqs.bounds p hp).2
      rwa [hlength, Nat.zero_add] at hbounds
    have hbehind : ∀ p ∈ rs, k ≤ p.offset := fun p hp => (hrs.bounds p hp).1
    rw [map_moveFrom_append hbefore hbehind, tokenize_eq_ok_iff, scan, insertAt,
      String.toList_ofList, hscan, String.length_toList]
    exact ⟨rfl, rfl⟩

namespace Source

/-! ## Parsing -/

namespace Reading

variable {rule : CalleeRule} {r s : Reading} {t u : Token}

theorem Takes.of_spelling (h : Takes rule r t s) (hu : u.spelling = t.spelling) :
    Takes rule r u s := by
  obtain ⟨kind, text, offset⟩ := t
  obtain ⟨kind', text', offset'⟩ := u
  obtain ⟨rfl, rfl⟩ := Prod.mk.inj hu
  cases h with
  | callee due accepted => exact .callee due accepted
  | opening due opens => exact .opening due opens
  | closing due closes inside => exact .closing due closes inside
  | literal due spells => exact .literal due spells

theorem Refuses.of_spelling {f : Fault} (h : Refuses rule r t f) (hu : u.spelling = t.spelling) :
    ∃ g, Refuses rule r u g ∧ g.code = f.code ∧ g.details = f.details := by
  obtain ⟨kind, text, offset⟩ := t
  obtain ⟨kind', text', offset'⟩ := u
  obtain ⟨rfl, rfl⟩ := Prod.mk.inj hu
  cases h with
  | callee due rejected => exact ⟨_, .callee due rejected, rfl, rfl⟩
  | token due opens outside spells => exact ⟨_, .token due opens outside spells, rfl, rfl⟩

end Reading

section Spelling

variable {rule : CalleeRule} {onToken : Token → Token}
  (honToken : ∀ t, (onToken t).spelling = t.spelling) {ts : List Token}

include honToken

theorem readAll_map_of_ok {r : Reading} (h : Reading.readAll rule {} ts = .ok r) :
    Reading.readAll rule {} (ts.map onToken) = .ok r :=
  Reading.readAll_ok_transport (fun _ t _ ht => ht.of_spelling (honToken t)) h

theorem parse_map_of_ok {p : Program} (h : parse rule ts = .ok p) :
    parse rule (ts.map onToken) = .ok p := by
  obtain ⟨r, hread, hc, rfl⟩ := parse_eq_ok_iff.mp h
  exact parse_eq_ok_iff.mpr ⟨r, readAll_map_of_ok honToken hread, hc, rfl⟩

/-- Tokens that differ in their offsets alone fail alike. -/
theorem parse_map_of_error {f : Fault} (h : parse rule ts = .error f) :
    ∃ g, parse rule (ts.map onToken) = .error g ∧ g.code = f.code ∧ g.details = f.details := by
  rcases parse_eq_error h with hread | ⟨r, last, hread, hc, hlast, rfl⟩
  · obtain ⟨pre, t, post, r, rfl, hpre, hf⟩ := Reading.readAll_eq_error hread
    obtain ⟨g, hg, hreport⟩ := hf.of_spelling (honToken t)
    refine ⟨g, parse_of_readAll_error ?_, hreport⟩
    rw [List.map_append, List.map_cons]
    exact readAll_append_refused (readAll_map_of_ok honToken hpre) hg _
  · refine ⟨.endOfInput (Token.endOf (ts.map onToken)), ?_, rfl, rfl⟩
    rw [parse_of_readAll_ok (readAll_map_of_ok honToken hread), hc]
    rfl

end Spelling

end Source

/-! ## Compiling -/

/-- Blanks at a position that is not inside of a token move the tokens behind it
and change nothing else. Compiling has the same output with them, or fails in the
same way. -/
theorem layout_independent (source w : String) (k : Nat) (ts : List Token)
    (ht : tokenize source = .ok ts) (hk : k ≤ source.length)
    (hinside : ∀ t ∈ ts, ¬ (t.offset < k ∧ (k : Int) < t.endOffset))
    (hw : ∀ c ∈ w.toList, Text.isBlank c = true) :
    tokenize (insertAt source k w) = .ok (ts.map fun t =>
      if (k : Int) ≤ t.offset then { t with offset := t.offset + w.length } else t) ∧
    ∀ options : Options,
      (∃ output, compile options source = .ok output ∧
        compile options (insertAt source k w) = .ok output) ∨
      ∃ d e, compile options source = .error (.diagnostic d) ∧
        compile options (insertAt source k w) = .error (.diagnostic e) ∧
        e.stage = d.stage ∧ e.code = d.code ∧ e.details = d.details := by
  have hmoved := tokenize_insertAt ht hk hinside hw
  refine ⟨hmoved, fun options => ?_⟩
  have hspelling : ∀ t, (Token.moveFrom k w.length t).spelling = t.spelling :=
    Token.spelling_moveFrom k w.length
  cases hp : Source.parse options.calleeRule ts with
  | ok p =>
    exact .inl ⟨p.written, compile_of_parse_ok ht hp,
      compile_of_parse_ok hmoved (Source.parse_map_of_ok hspelling hp)⟩
  | error f =>
    obtain ⟨g, hg, hcode, hdetails⟩ := Source.parse_map_of_error hspelling hp
    obtain ⟨d, hd, hstage, hdcode, hddetails, _⟩ := compile_reports_parsing ht hp
    obtain ⟨e, he, hstage', hecode, hedetails, _⟩ := compile_reports_parsing hmoved hg
    refine .inr ⟨d, e, hd, he, hstage'.trans hstage.symm, ?_, ?_⟩
    · rw [hecode, hcode, hdcode]
    · rw [hedetails, hdetails, hddetails]

/-- The blanks go between two strings that touch; the callee is one for the
permissive rule only. -/
theorem layout_independent_touching :
    let source := "(1\"a\"\"b\")"
    let spaced := "(1\"a\"\n \"b\")"
    insertAt source 5 "\n " = spaced ∧
      tokenize spaced = .ok [⟨.paren, "(", 0⟩, ⟨.number, "1", 1⟩, ⟨.string, "a", 2⟩,
        ⟨.string, "b", 7⟩, ⟨.paren, ")", 10⟩] ∧
      compile { anyCallee := true } spaced = .ok "1(\"a\", \"b\");" ∧
      ∃ e, compile {} spaced = .error (.diagnostic e) ∧ e.code = .invalidCallee := by
  intro source spaced
  have ht : tokenize source = .ok [⟨.paren, "(", 0⟩, ⟨.number, "1", 1⟩, ⟨.string, "a", 2⟩,
      ⟨.string, "b", 5⟩, ⟨.paren, ")", 8⟩] := by decide +kernel
  have hwritten : Source.Program.written
      ⟨[.call "1" [.literal ⟨.string, "a"⟩, .literal ⟨.string, "b"⟩]]⟩ = "1(\"a\", \"b\");" := by
    decide +kernel
  have hspaced : insertAt source 5 "\n " = spaced := by decide +kernel
  have hblank : ∀ c ∈ "\n ".toList, Text.isBlank c = true := by
    intro c hc
    obtain rfl | rfl : c = '\n' ∨ c = ' ' := by simpa using hc
    · decide
    · decide
  obtain ⟨hmoved, hcompile⟩ := layout_independent source "\n " 5 _ ht (by decide +kernel)
    (by decide +kernel) hblank
  rw [hspaced] at hmoved hcompile
  refine ⟨hspaced, hmoved, ?_, ?_⟩
  · have hc : compile { anyCallee := true } source = .ok "1(\"a\", \"b\");" :=
      hwritten ▸ compile_of_parse_ok ht (Source.parse_of_outcome rfl)
    obtain ⟨output, hsource, houtput⟩ | ⟨d, _, hd, _⟩ := hcompile { anyCallee := true }
    · rw [houtput, ← hsource, hc]
    · cases hc.symm.trans hd
  · obtain ⟨d, hd, _, hcode, _⟩ :=
      @compile_reports_parsing {} _ _ (.invalidCallee ⟨.number, "1", 1⟩) ht
        (Source.parse_of_outcome rfl)
    obtain ⟨output, hsource, _⟩ | ⟨d', e, hd', he, _, hsame, _⟩ := hcompile {}
    · cases hd.symm.trans hsource
    · cases hd.symm.trans hd'
      exact ⟨e, he, hsame.trans hcode⟩

end ParenCall
