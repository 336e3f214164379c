import ParenCall.Proofs.Decoding

/-! # Strings in what is written

Strings are written in double quotes and nothing in them is escaped. Reading
the written text by the rule that cuts double-quoted strings out of program
text gives the strings of the source back in order, as long as none of them
holds a double quote; a string that does is never read back. Each piece of a
written program is read over by itself: names, numbers and punctuation have no
quotes, and a string is closed where it was written to be. -/

namespace ParenCall

theorem Lexeme.string_of_stringAfter? {quote : Quote} {cs rest : List Char} {l : Lexeme}
    (h : stringAfter? quote cs = some (l, rest)) :
    ∃ content, l = .string quote content ∧ quote.mark ∉ content ∧
      cs = content ++ quote.mark :: rest := by
  have hl : ∃ content, l = .string quote content := by
    unfold stringAfter? at h
    split at h
    · contradiction
    · obtain ⟨rfl, _⟩ := by simpa using h
      exact ⟨_, rfl⟩
  obtain ⟨content, rfl⟩ := hl
  have htext := stringAfter?_eq_some h
  exact ⟨content, rfl, (stringAfter?_sound h).1, by simpa [raw] using htext⟩

/-- The strings in a text, where every double quote outside of a string opens
one that runs to the next double quote. There is no such list when the last
string is not closed. -/
def quotedTexts : List Char → Option (List String)
  | [] => some []
  | c :: cs =>
    if c = '"' then
      match _h : Lexeme.stringAfter? .double cs with
      | none => none
      | some (l, rest) => (quotedTexts rest).map (String.ofList l.text :: ·)
    else quotedTexts cs
termination_by cs => cs.length
decreasing_by
  · obtain ⟨content, _, _, rfl⟩ := Lexeme.string_of_stringAfter? _h
    rw [List.length_cons, List.length_append, List.length_cons]
    omega
  · simp

theorem quotedTexts_cons_ne {c : Char} (hc : c ≠ '"') (cs : List Char) :
    quotedTexts (c :: cs) = quotedTexts cs := by
  rw [quotedTexts, if_neg hc]

theorem quotedTexts_string {content : List Char} (h : '"' ∉ content) (rest : List Char) :
    quotedTexts ('"' :: (content ++ '"' :: rest)) =
      (quotedTexts rest).map (String.ofList content :: ·) := by
  have hstring : Lexeme.stringAfter? .double (content ++ '"' :: rest) = some (_, rest) :=
    Lexeme.stringAfter?_complete h rest
  rw [quotedTexts, if_pos rfl]
  split
  · rename_i hnone
    cases hstring.symm.trans hnone
  · rename_i hsome
    cases hstring.symm.trans hsome
    rfl

/-- No string that is read holds a double quote. -/
theorem notMem_of_quotedTexts {cs : List Char} {texts : List String}
    (h : quotedTexts cs = some texts) : ∀ text ∈ texts, '"' ∉ text.toList := by
  fun_induction quotedTexts cs generalizing texts with
  | case1 =>
    cases h
    simp
  | case2 => contradiction
  | case3 cs l rest hstring ih =>
    obtain ⟨others, hothers, rfl⟩ := Option.map_eq_some_iff.mp h
    intro text ht
    cases ht with
    | head =>
      obtain ⟨content, rfl, hquote, _⟩ := Lexeme.string_of_stringAfter? hstring
      rw [String.toList_ofList]
      exact hquote
    | tail _ ht => exact ih hothers text ht
  | case4 c cs hc ih => exact ih h

/-! ## Reading over a piece of text -/

/-- Whatever follows, the text is read over and these strings are found in it. -/
def ReadsOver (cs : List Char) (texts : List String) : Prop :=
  ∀ rest, quotedTexts (cs ++ rest) = (quotedTexts rest).map (texts ++ ·)

namespace ReadsOver

theorem nil : ReadsOver [] [] := by
  intro rest
  simp

theorem append {cs ds : List Char} {texts others : List String} (hc : ReadsOver cs texts)
    (hd : ReadsOver ds others) : ReadsOver (cs ++ ds) (texts ++ others) := by
  intro rest
  rw [List.append_assoc, hc, hd, Option.map_map]
  congr 1
  funext found
  exact (List.append_assoc texts others found).symm

theorem of_notMem {cs : List Char} (h : '"' ∉ cs) : ReadsOver cs [] := by
  induction cs with
  | nil => exact nil
  | cons c cs ih =>
    obtain ⟨hc, hcs⟩ := List.ne_and_not_mem_of_not_mem_cons h
    intro rest
    rw [List.cons_append, quotedTexts_cons_ne hc.symm]
    exact ih hcs rest

theorem string {content : String} (h : '"' ∉ content.toList) :
    ReadsOver ('"' :: (content.toList ++ ['"'])) [content] := by
  intro rest
  rw [List.cons_append, List.append_assoc]
  refine (quotedTexts_string h rest).trans ?_
  rw [String.ofList_toList]
  rfl

theorem separated {α : Type} {f : α → List Char} {texts : α → List String} {sep : List Char}
    (hsep : '"' ∉ sep) {xs : List α} (h : ∀ x ∈ xs, ReadsOver (f x) (texts x)) :
    ReadsOver (sep.intercalate (xs.map f)) (xs.flatMap texts) := by
  -- on the items behind the first, each with its separator in front
  have hmore : ∀ ys : List α, (∀ y ∈ ys, ReadsOver (f y) (texts y)) →
      ReadsOver (ys.flatMap fun y => sep ++ f y) (ys.flatMap texts) := by
    intro ys
    induction ys with
    | nil => exact fun _ => nil
    | cons y ys ih =>
      intro hys
      have hfirst := (of_notMem hsep).append (hys y List.mem_cons_self)
      exact hfirst.append (ih fun z hz => hys z (List.mem_cons_of_mem _ hz))
  cases xs with
  | nil => exact nil
  | cons x xs =>
    rw [intercalate_map_cons, List.flatMap_cons]
    exact (h x List.mem_cons_self).append (hmore xs fun y hy => h y (List.mem_cons_of_mem _ hy))

end ReadsOver

/-- The texts of the strings among these spellings, in order. -/
def stringsAmong (xs : List (Token.Kind × String)) : List String :=
  (xs.filter (·.1 = .string)).map Prod.snd

theorem stringsAmong_append (xs ys : List (Token.Kind × String)) :
    stringsAmong (xs ++ ys) = stringsAmong xs ++ stringsAmong ys := by
  simp only [stringsAmong, List.filter_append, List.map_append]

theorem stringsAmong_spelling (ts : List Token) :
    stringsAmong (ts.map Token.spelling) = (ts.filter (·.kind = .string)).map (·.text) := by
  rw [stringsAmong, List.filter_map, List.map_map]
  rfl

namespace Source

/-! ## Expressions and programs -/

def Expr.strings (e : Expr) : List String := stringsAmong (e.slots.map Slot.spelling)

theorem stringsAmong_flatMap_slots (es : List Expr) :
    stringsAmong ((es.flatMap Expr.slots).map Slot.spelling) = es.flatMap Expr.strings := by
  induction es with
  | nil => rfl
  | cons e es ih =>
    rw [List.flatMap_cons, List.map_append, stringsAmong_append, ih, List.flatMap_cons]
    rfl

theorem Expr.strings_call (name : String) (params : List Expr) :
    (Expr.call name params).strings = params.flatMap Expr.strings := by
  rw [← stringsAmong_flatMap_slots]
  simp [Expr.strings, Expr.slots_call, Slot.spelling, stringsAmong]

theorem quote_notMem_of_run {p : Char → Bool} {text : String} (run : IsRun p text)
    (hquote : p '"' = false) : '"' ∉ text.toList := by
  intro hmem
  rw [run.2 _ hmem] at hquote
  contradiction

theorem Plain.readsOver {e : Expr} (h : Plain e) : ReadsOver e.chars e.strings := by
  induction h with
  | number run => exact .of_notMem (quote_notMem_of_run run rfl)
  | @string content unquoted =>
    rw [Expr.chars_string]
    exact .string unquoted
  | @call name params run _ ih =>
    have hname : ReadsOver (name.toList ++ ['(']) [] :=
      (ReadsOver.of_notMem (quote_notMem_of_run run rfl)).append (.of_notMem (by simp))
    have hcomma : '"' ∉ [',', ' '] := by simp
    have hparams := ReadsOver.separated hcomma ih
    have hclose : ReadsOver [')'] [] := .of_notMem (by simp)
    have hall := (hname.append hparams).append hclose
    rw [Expr.chars_call, Expr.strings_call]
    simpa using hall

theorem Plain.readsOver_item {e : Expr} (h : Plain e) : ReadsOver e.itemChars e.strings := by
  have hend : ReadsOver e.itemEnd [] := by
    cases e with
    | literal l => exact .nil
    | call name params => exact .of_notMem (by simp [Expr.itemEnd])
  rw [e.itemChars_eq, ← List.append_nil e.strings]
  exact h.readsOver.append hend

theorem Program.quotedTexts_written {p : Program} (h : ∀ e ∈ p.body, Plain e) :
    quotedTexts p.written.toList = some (p.body.flatMap Expr.strings) := by
  have hnewline : '"' ∉ ['\n'] := by simp
  have hbody := ReadsOver.separated hnewline fun e he => (h e he).readsOver_item
  have hall := hbody []
  rw [List.append_nil, ← p.toList_written, quotedTexts] at hall
  simpa using hall

theorem strings_of_parse {ts : List Token} {p : Program} (h : parse .strict ts = .ok p) :
    (ts.filter (·.kind = .string)).map (·.text) = p.body.flatMap Expr.strings := by
  rw [← stringsAmong_spelling, admits_strict_iff_map.mp (parse_sound h)]
  exact stringsAmong_flatMap_slots p.body

end Source

/-- Reading the output of a source gives the texts of its string tokens back, in
order and with every string closed, exactly when no such text holds a double
quote. -/
theorem strings_read_back_iff (source output : String) (h : compile {} source = .ok output) :
    ∃ ts, tokenize source = .ok ts ∧
      (quotedTexts output.toList = some ((ts.filter (·.kind = .string)).map (·.text)) ↔
        ∀ t ∈ ts, t.kind = .string → '"' ∉ t.text.toList) := by
  obtain ⟨ts, p, ht, hp, rfl⟩ := compile_eq_ok h
  refine ⟨ts, ht, fun hread t hmem hkind => ?_, fun hquote => ?_⟩
  · refine notMem_of_quotedTexts hread t.text (List.mem_map_of_mem ?_)
    simpa using ⟨hmem, hkind⟩
  · have hunquoted : Unquoted source := by
      intro us hu
      obtain rfl := Except.ok.inj (ht.symm.trans hu)
      exact hquote
    rw [Source.strings_of_parse hp]
    exact Source.Program.quotedTexts_written (plain_of_text hunquoted ht hp)

/-- One string is closed by the quote that its text holds the other sort of, and
one is a parenthesis in a call. -/
theorem strings_read_back_nested :
    let source := "(f \"it's\" (g '(')) 'x'"
    let output := "f(\"it's\", g(\"(\"));\n\"x\""
    compile {} source = .ok output ∧ quotedTexts output.toList = some ["it's", "(", "x"] := by
  intro source output
  have ht : tokenize source = .ok [⟨.paren, "(", 0⟩, ⟨.name, "f", 1⟩, ⟨.string, "it's", 3⟩,
      ⟨.paren, "(", 10⟩, ⟨.name, "g", 11⟩, ⟨.string, "(", 13⟩, ⟨.paren, ")", 16⟩,
      ⟨.paren, ")", 17⟩, ⟨.string, "x", 19⟩] := by decide +kernel
  have hw : Source.Program.written ⟨[.call "f" [.literal ⟨.string, "it's"⟩,
      .call "g" [.literal ⟨.string, "("⟩]], .literal ⟨.string, "x"⟩]⟩ = output := by
    decide +kernel
  have hc : compile {} source = .ok output := hw ▸ compile_of_parse_ok ht (Source.parse_of_outcome rfl)
  obtain ⟨ts, hts, hread⟩ := strings_read_back_iff source output hc
  obtain rfl := Except.ok.inj (ht.symm.trans hts)
  exact ⟨hc, hread.mpr (by decide)⟩

/-- The text of the single-quoted string holds two double quotes, so two shorter
strings are read in its place. -/
theorem strings_cut_at_double_quote :
    let source := "(say 'a \"b\" c')"
    let output := "say(\"a \"b\" c\");"
    compile {} source = .ok output ∧ quotedTexts output.toList = some ["a ", " c"] ∧
      ∃ ts, tokenize source = .ok ts ∧
        (ts.filter (·.kind = .string)).map (·.text) = ["a \"b\" c"] ∧
        quotedTexts output.toList ≠ some ((ts.filter (·.kind = .string)).map (·.text)) := by
  intro source output
  have ht : tokenize source = .ok [⟨.paren, "(", 0⟩, ⟨.name, "say", 1⟩,
      ⟨.string, "a \"b\" c", 5⟩, ⟨.paren, ")", 14⟩] := by decide +kernel
  have hw : Source.Program.written ⟨[.call "say" [.literal ⟨.string, "a \"b\" c"⟩]]⟩ =
      output := by decide +kernel
  have hread : quotedTexts output.toList = some ["a ", " c"] := by decide +kernel
  refine ⟨hw ▸ compile_of_parse_ok ht (Source.parse_of_outcome rfl), hread, _, ht, by decide, ?_⟩
  rw [hread]
  decide

end ParenCall
