import ParenCall.Proofs.Compilation
import ParenCall.Proofs.Grammar
import ParenCall.Proofs.Lexing

/-! # Reading a program back from its text

What compiling writes can be taken apart in one way only, as long as no string
holds a double quote. The first character of an expression tells whether it is
a number, a string or a call. A number runs to the first character that is no
digit, a string to the next double quote and the name of a call to its opening
parenthesis. Parameters and body items are separated lists, and such a list is
taken apart in one way when each item is, and when neither a separator nor an
item can start where the list ends. -/

namespace ParenCall

/-! ## Separated lists -/

section Separated

variable {α : Type} {f : α → List Char} {sep : List Char} {Good : α → Prop}
  {Ends : List Char → Prop}

/-- Where the text of an item ends is told by its characters alone, provided
that a text follows at which items can end. -/
def Cancels (f : α → List Char) (Good : α → Prop) (Ends : List Char → Prop) (x : α) : Prop :=
  ∀ ⦃y : α⦄ ⦃s t : List Char⦄, Good y → Ends s → Ends t → f x ++ s = f y ++ t → x = y ∧ s = t

/-- Text that may stand after a separated list. -/
structure Closes (f : α → List Char) (sep : List Char) (Good : α → Prop)
    (Ends : List Char → Prop) (s : List Char) : Prop where
  ends : Ends s
  noSeparator : ∀ t, s ≠ sep ++ t
  noItem : ∀ x, Good x → ∀ t, s ≠ f x ++ t

theorem ends_more (hsep : ∀ s, Ends (sep ++ s)) (xs : List α) {s : List Char} (hs : Ends s) :
    Ends (xs.flatMap (fun x => sep ++ f x) ++ s) := by
  cases xs with
  | nil => exact hs
  | cons x xs =>
    rw [List.flatMap_cons, List.append_assoc, List.append_assoc]
    exact hsep _

theorem cancel_more (hsep : ∀ s, Ends (sep ++ s)) {xs ys : List α} {s t : List Char}
    (hx : ∀ x ∈ xs, Cancels f Good Ends x) (hy : ∀ y ∈ ys, Good y)
    (hs : Closes f sep Good Ends s) (ht : Closes f sep Good Ends t)
    (h : xs.flatMap (fun x => sep ++ f x) ++ s = ys.flatMap (fun y => sep ++ f y) ++ t) :
    xs = ys ∧ s = t := by
  induction xs generalizing ys with
  | nil =>
    cases ys with
    | nil => exact ⟨rfl, h⟩
    | cons y ys =>
      simp only [List.flatMap_nil, List.flatMap_cons, List.nil_append, List.append_assoc] at h
      exact absurd h (hs.noSeparator _)
  | cons x xs ih =>
    cases ys with
    | nil =>
      simp only [List.flatMap_nil, List.flatMap_cons, List.nil_append, List.append_assoc] at h
      exact absurd h.symm (ht.noSeparator _)
    | cons y ys =>
      simp only [List.flatMap_cons, List.append_assoc] at h
      obtain ⟨rfl, hrest⟩ := hx x List.mem_cons_self (hy y List.mem_cons_self)
        (ends_more hsep xs hs.ends) (ends_more hsep ys ht.ends) (List.append_cancel_left h)
      obtain ⟨rfl, hst⟩ := ih (fun z hz => hx z (List.mem_cons_of_mem _ hz))
        (fun z hz => hy z (List.mem_cons_of_mem _ hz)) hrest
      exact ⟨rfl, hst⟩

theorem intercalate_map_cons (x : α) (xs : List α) :
    sep.intercalate ((x :: xs).map f) = f x ++ xs.flatMap (fun x => sep ++ f x) := by
  induction xs generalizing x with
  | nil => simp
  | cons y ys ih =>
    rw [List.map_cons, List.map_cons, List.intercalate_cons_cons, ← List.map_cons, ih,
      List.flatMap_cons]
    simp only [List.append_assoc]

theorem cancel_intercalate (hsep : ∀ s, Ends (sep ++ s)) {xs ys : List α} {s t : List Char}
    (hx : ∀ x ∈ xs, Good x ∧ Cancels f Good Ends x) (hy : ∀ y ∈ ys, Good y)
    (hs : Closes f sep Good Ends s) (ht : Closes f sep Good Ends t)
    (h : sep.intercalate (xs.map f) ++ s = sep.intercalate (ys.map f) ++ t) :
    xs = ys ∧ s = t := by
  cases xs with
  | nil =>
    cases ys with
    | nil => exact ⟨rfl, h⟩
    | cons y ys =>
      rw [intercalate_map_cons, List.append_assoc] at h
      exact absurd h (hs.noItem y (hy y List.mem_cons_self) _)
  | cons x xs =>
    obtain ⟨hgood, hcancel⟩ := hx x List.mem_cons_self
    cases ys with
    | nil =>
      rw [intercalate_map_cons, List.append_assoc] at h
      exact absurd h.symm (ht.noItem x hgood _)
    | cons y ys =>
      rw [intercalate_map_cons, intercalate_map_cons, List.append_assoc, List.append_assoc] at h
      obtain ⟨rfl, hrest⟩ := hcancel (hy y List.mem_cons_self) (ends_more hsep xs hs.ends)
        (ends_more hsep ys ht.ends) h
      obtain ⟨rfl, hst⟩ := cancel_more hsep (fun z hz => (hx z (List.mem_cons_of_mem _ hz)).2)
        (fun z hz => hy z (List.mem_cons_of_mem _ hz)) hs ht hrest
      exact ⟨rfl, hst⟩

end Separated

/-- A run of characters ends at the first one that is of another class. -/
theorem cancel_run {p : Char → Bool} {xs ys s t : List Char} (hx : ∀ c ∈ xs, p c = true)
    (hy : ∀ c ∈ ys, p c = true) (hs : s.takeWhile p = []) (ht : t.takeWhile p = [])
    (h : xs ++ s = ys ++ t) : xs = ys ∧ s = t := by
  have htake := congrArg (List.takeWhile p) h
  rw [List.takeWhile_append_of_pos hx, List.takeWhile_append_of_pos hy, hs, ht, List.append_nil,
    List.append_nil] at htake
  subst htake
  exact ⟨rfl, List.append_cancel_left h⟩

namespace Source

/-! ## Expressions -/

/-- An expression as it comes from program text without double quotes in
strings. -/
inductive Plain : Expr → Prop
  | number {digits : String} (run : IsRun Char.isDigit digits) :
      Plain (.literal ⟨.number, digits⟩)
  | string {content : String} (unquoted : '"' ∉ content.toList) :
      Plain (.literal ⟨.string, content⟩)
  | call {name : String} {params : List Expr} (run : IsRun Char.isAlpha name)
      (plain : ∀ e ∈ params, Plain e) : Plain (.call name params)

def Expr.chars (e : Expr) : List Char := e.written.toList

def Expr.itemChars (e : Expr) : List Char := e.writtenItem.toList

theorem Expr.chars_number (digits : String) :
    (Expr.literal ⟨.number, digits⟩).chars = digits.toList := rfl

theorem Expr.chars_string (content : String) :
    (Expr.literal ⟨.string, content⟩).chars = '"' :: (content.toList ++ ['"']) := by
  show ("\"" ++ content ++ "\"").toList = _
  simp

theorem Expr.chars_call (name : String) (params : List Expr) :
    (Expr.call name params).chars =
      name.toList ++ '(' :: ([',', ' '].intercalate (params.map Expr.chars) ++ [')']) := by
  have hparams : (params.map Expr.written).map String.toList = params.map Expr.chars :=
    List.map_map
  rw [Expr.chars, Expr.written_call, ← hparams]
  simp

/-- What an expression is a literal of, told by its first character. -/
def leadKind (c : Char) : Option Literal.Kind :=
  if c.isDigit then some .number else if c = '"' then some .string else none

def Expr.literalKind : Expr → Option Literal.Kind
  | .literal l => some l.kind
  | .call _ _ => none

theorem Plain.lead {e : Expr} (h : Plain e) :
    ∃ c cs, e.chars = c :: cs ∧ leadKind c = e.literalKind ∧ c ≠ ')' := by
  cases h with
  | @number digits run =>
    obtain ⟨c, cs, hcs⟩ := List.exists_cons_of_ne_nil run.1
    have hc : c.isDigit = true := run.2 c (by simp [hcs])
    refine ⟨c, cs, hcs, by simp [leadKind, hc, Expr.literalKind], ?_⟩
    rintro rfl
    contradiction
  | @string content unquoted =>
    exact ⟨'"', _, Expr.chars_string content, rfl, by decide⟩
  | @call name params run plain =>
    obtain ⟨c, cs, hcs⟩ := List.exists_cons_of_ne_nil run.1
    have hc : c.isAlpha = true := run.2 c (by simp [hcs])
    have hquote : c ≠ '"' := by
      rintro rfl
      contradiction
    refine ⟨c, _, by rw [Expr.chars_call, hcs, List.cons_append], ?_, ?_⟩
    · simp [leadKind, isDigit_eq_false_of_isAlpha hc, hquote, Expr.literalKind]
    · rintro rfl
      contradiction

theorem Plain.literalKind_eq {e e' : Expr} (he : Plain e) (he' : Plain e') {s t : List Char}
    (h : e.chars ++ s = e'.chars ++ t) : e.literalKind = e'.literalKind := by
  obtain ⟨c, cs, hcs, hk, _⟩ := he.lead
  obtain ⟨c', cs', hcs', hk', _⟩ := he'.lead
  rw [hcs, hcs', List.cons_append, List.cons_append] at h
  rw [← hk, ← hk', (List.cons.inj h).1]

/-- Text that does not go on with a digit. -/
def EndsNumber (s : List Char) : Prop := s.takeWhile Char.isDigit = []

theorem closes_params (s : List Char) :
    Closes Expr.chars [',', ' '] Plain EndsNumber (')' :: s) where
  ends := rfl
  noSeparator := by simp
  noItem := by
    intro e he t h
    obtain ⟨c, cs, hcs, _, hne⟩ := he.lead
    rw [hcs, List.cons_append] at h
    exact hne (List.cons.inj h).1.symm

/-- The text of an expression tells where it ends and what it was written from. -/
theorem Plain.cancels {e : Expr} (he : Plain e) : Cancels Expr.chars Plain EndsNumber e := by
  induction he with
  | @number digits run =>
    intro e' s t he' hs ht h
    have hkind := Plain.literalKind_eq (.number run) he' h
    cases he' with
    | @number digits' run' =>
      rw [Expr.chars_number, Expr.chars_number] at h
      obtain ⟨hd, rfl⟩ := cancel_run run.2 run'.2 hs ht h
      exact ⟨by rw [String.toList_inj.mp hd], rfl⟩
    | string | call => cases hkind
  | @string content unquoted =>
    intro e' s t he' hs ht h
    have hkind := Plain.literalKind_eq (.string unquoted) he' h
    cases he' with
    | @string content' unquoted' =>
      rw [Expr.chars_string, Expr.chars_string] at h
      simp only [List.cons_append, List.append_assoc, List.nil_append] at h
      -- both contents run up to the closing quote
      obtain ⟨hd, hrest⟩ := cancel_run (bne_of_notMem unquoted)
        (bne_of_notMem unquoted') (by simp) (by simp) (List.cons.inj h).2
      exact ⟨by rw [String.toList_inj.mp hd], (List.cons.inj hrest).2⟩
    | number | call => cases hkind
  | @call name params run plain ih =>
    intro e' s t he' hs ht h
    have hkind := Plain.literalKind_eq (.call run plain) he' h
    cases he' with
    | @call name' params' run' plain' =>
      rw [Expr.chars_call, Expr.chars_call] at h
      simp only [List.cons_append, List.append_assoc, List.nil_append] at h
      -- both names run up to the opening parenthesis
      obtain ⟨hn, hrest⟩ := cancel_run run.2 run'.2 rfl rfl h
      obtain ⟨rfl, hst⟩ := cancel_intercalate (fun _ => rfl) (fun e he => ⟨plain e he, ih e he⟩)
        plain' (closes_params s) (closes_params t) (List.cons.inj hrest).2
      exact ⟨by rw [String.toList_inj.mp hn], (List.cons.inj hst).2⟩
    | number | string => cases hkind

/-! ## Programs -/

/-- What an expression is followed by when it is an item of a body. -/
def Expr.itemEnd : Expr → List Char
  | .literal _ => []
  | .call _ _ => [';']

theorem Expr.itemChars_eq (e : Expr) : e.itemChars = e.chars ++ e.itemEnd := by
  cases e <;> simp [Expr.itemChars, Expr.writtenItem, Expr.chars, Expr.itemEnd]

theorem Expr.endsNumber_itemEnd (e : Expr) {s : List Char} (hs : EndsNumber s) :
    EndsNumber (e.itemEnd ++ s) := by
  cases e with
  | literal l => exact hs
  | call name params => rfl

theorem Plain.cancels_item {e : Expr} (he : Plain e) :
    Cancels Expr.itemChars Plain EndsNumber e := by
  intro e' s t he' hs ht h
  rw [e.itemChars_eq, e'.itemChars_eq, List.append_assoc, List.append_assoc] at h
  obtain ⟨rfl, hst⟩ := he.cancels he' (e.endsNumber_itemEnd hs) (e'.endsNumber_itemEnd ht) h
  exact ⟨rfl, List.append_cancel_left hst⟩

theorem closes_body : Closes Expr.itemChars ['\n'] Plain EndsNumber [] where
  ends := rfl
  noSeparator := by simp
  noItem := by
    intro e he t h
    obtain ⟨c, cs, hcs, _⟩ := he.lead
    rw [e.itemChars_eq, hcs] at h
    contradiction

theorem Program.toList_written (p : Program) :
    p.written.toList = ['\n'].intercalate (p.body.map Expr.itemChars) := by
  have hitems : (p.body.map Expr.writtenItem).map String.toList = p.body.map Expr.itemChars :=
    List.map_map
  rw [Program.written, String.toList_intercalate, hitems]
  rfl

theorem Program.written_injective {p q : Program} (hp : ∀ e ∈ p.body, Plain e)
    (hq : ∀ e ∈ q.body, Plain e) (h : p.written = q.written) : p = q := by
  have hchars := congrArg String.toList h
  rw [p.toList_written, q.toList_written] at hchars
  obtain ⟨hbody, _⟩ := cancel_intercalate (fun _ => rfl)
    (fun e he => ⟨hp e he, (hp e he).cancels_item⟩) hq closes_body closes_body
    (congrArg (· ++ []) hchars)
  cases p
  cases q
  exact congrArg Program.mk hbody

/-! ## Programs from text -/

/-- A spelling that can come from text without double quotes in strings. -/
def PlainSpelling (x : Token.Kind × String) : Prop :=
  WellSpelled x ∧ (x.1 = .string → '"' ∉ x.2.toList)

theorem plain_of_slots {e : Expr} (h : ∀ s ∈ e.slots, PlainSpelling s.spelling) : Plain e := by
  induction e with
  | literal l =>
    obtain ⟨kind, value⟩ := l
    have hl := h (.fixed kind.tokenKind value) (List.mem_singleton.mpr rfl)
    cases kind with
    | number => exact .number hl.1
    | string => exact .string (hl.2 rfl)
  | call name params ih =>
    have hname := h (.callee name) (by simp [Expr.slots_call])
    exact .call hname.1 fun e he => ih e he fun s hs => h s (Expr.mem_slots_call he hs)

theorem plain_of_parse {ts : List Token} {p : Program}
    (hts : ∀ t ∈ ts, PlainSpelling t.spelling) (h : parse .strict ts = .ok p) :
    ∀ e ∈ p.body, Plain e := by
  intro e he
  refine plain_of_slots fun s hs => spelling_of_parse hts h s ?_
  exact List.mem_flatMap.mpr ⟨e, he, hs⟩

end Source

/-- No string of the source text holds a double quote. -/
def Unquoted (source : String) : Prop :=
  ∀ ts, tokenize source = .ok ts → ∀ t ∈ ts, t.kind = .string → '"' ∉ t.text.toList

theorem plain_of_text {source : String} {ts : List Token} {p : Source.Program}
    (hq : Unquoted source) (ht : tokenize source = .ok ts)
    (hp : Source.parse .strict ts = .ok p) : ∀ e ∈ p.body, Source.Plain e := by
  refine Source.plain_of_parse (fun t hm => ?_) hp
  exact ⟨wellSpelled_of_tokenize ht t hm, hq ts ht t hm⟩

/-- Two sources without double quotes in their strings that are compiled to the
same text are the same program. -/
theorem compile_injective (a b output : String) (ha : compile {} a = .ok output)
    (hb : compile {} b = .ok output) (hqa : Unquoted a) (hqb : Unquoted b) :
    ∃ as bs p, tokenize a = .ok as ∧ tokenize b = .ok bs ∧
      Source.parse .strict as = .ok p ∧ Source.parse .strict bs = .ok p := by
  obtain ⟨as, p, hta, hpa, hwa⟩ := compile_eq_ok ha
  obtain ⟨bs, q, htb, hpb, hwb⟩ := compile_eq_ok hb
  have hpq : p = q := Source.Program.written_injective (plain_of_text hqa hta hpa)
    (plain_of_text hqb htb hpb) (hwa.symm.trans hwb)
  exact ⟨as, bs, p, hta, htb, hpa, hpq ▸ hpb⟩

/-- Either sort of quote, and a parenthesis in the string. -/
theorem compile_injective_either_quote :
    let a := "(f 'a)' 1)"
    let b := "( f \"a)\"\n1 )"
    compile {} a = .ok "f(\"a)\", 1);" ∧ compile {} b = .ok "f(\"a)\", 1);" ∧
      Unquoted a ∧ Unquoted b ∧
      ∃ as bs p, tokenize a = .ok as ∧ tokenize b = .ok bs ∧
        Source.parse .strict as = .ok p ∧ Source.parse .strict bs = .ok p := by
  intro a b
  have hta : tokenize a = .ok [⟨.paren, "(", 0⟩, ⟨.name, "f", 1⟩, ⟨.string, "a)", 3⟩,
      ⟨.number, "1", 8⟩, ⟨.paren, ")", 9⟩] := by decide +kernel
  have htb : tokenize b = .ok [⟨.paren, "(", 0⟩, ⟨.name, "f", 2⟩, ⟨.string, "a)", 4⟩,
      ⟨.number, "1", 9⟩, ⟨.paren, ")", 11⟩] := by decide +kernel
  have hw : Source.Program.written
      ⟨[.call "f" [.literal ⟨.string, "a)"⟩, .literal ⟨.number, "1"⟩]]⟩ = "f(\"a)\", 1);" := by
    decide +kernel
  have ha : compile {} a = .ok "f(\"a)\", 1);" :=
    hw ▸ compile_of_parse_ok hta (Source.parse_of_outcome rfl)
  have hb : compile {} b = .ok "f(\"a)\", 1);" :=
    hw ▸ compile_of_parse_ok htb (Source.parse_of_outcome rfl)
  have hqa : Unquoted a := by
    intro ts hts
    obtain rfl := Except.ok.inj (hta.symm.trans hts)
    decide
  have hqb : Unquoted b := by
    intro ts hts
    obtain rfl := Except.ok.inj (htb.symm.trans hts)
    decide
  exact ⟨ha, hb, hqa, hqb, compile_injective a b _ ha hb hqa hqb⟩

end ParenCall
