import Mathlib.Data.List.Forall2
import ParenCall.Proofs.Driving
import ParenCall.Proofs.Induction

/-! # The token lists of a program

A program is spelled by one token for each of its slots, in order. All slots
but the callees fix the kind and the text of their token; which tokens a callee
admits depends on the rule. Reading keeps an invariant: the tokens taken so far
spell the finished part of the program, then the open calls from the outermost
to the innermost, then an opening parenthesis if a callee is due. Reading the
slots of an expression, in turn, adds just that expression. Together the two
say that parsing accepts the token lists that spell a program, no others, and
returns the program they spell. -/

namespace ParenCall

def Token.spelling (t : Token) : Token.Kind × String := (t.kind, t.text)

def Literal.Kind.tokenKind : Literal.Kind → Token.Kind
  | .number => .number
  | .string => .string

namespace Source

/-! ## Slots -/

inductive Slot where
  | fixed (kind : Token.Kind) (text : String)
  | callee (name : String)
deriving DecidableEq, Repr

/-- The token that a slot stands for when callees are names. -/
def Slot.spelling : Slot → Token.Kind × String
  | .fixed kind text => (kind, text)
  | .callee name => (.name, name)

def Slot.Admits (rule : CalleeRule) (s : Slot) (t : Token) : Prop :=
  match s, rule with
  | .fixed kind text, _ => t.spelling = (kind, text)
  | .callee name, .strict => t.spelling = (.name, name)
  | .callee name, .permissive => t.spelling ≠ (.paren, ")") ∧ t.text = name

def Expr.slots : Expr → List Slot :=
  Expr.fold (fun l => [.fixed l.kind.tokenKind l.value]) fun name params =>
    .fixed .paren "(" :: .callee name :: (params.flatten ++ [.fixed .paren ")"])

def Program.slots (p : Program) : List Slot := p.body.flatMap Expr.slots

def Program.flatten (p : Program) : List (Token.Kind × String) := p.slots.map Slot.spelling

theorem Expr.slots_call (name : String) (params : List Expr) :
    (Expr.call name params).slots =
      .fixed .paren "(" :: .callee name :: (params.flatMap Expr.slots ++ [.fixed .paren ")"]) :=
  Expr.fold_call ..

theorem Expr.mem_slots_call {name : String} {params : List Expr} {e : Expr} {s : Slot}
    (he : e ∈ params) (hs : s ∈ e.slots) : s ∈ (Expr.call name params).slots := by
  have hparams : s ∈ params.flatMap Expr.slots := List.mem_flatMap.mpr ⟨e, he, hs⟩
  simp [Expr.slots_call, hparams]

theorem Slot.admits_callee {rule : CalleeRule} {name : String} {t : Token} :
    (Slot.callee name).Admits rule t ↔ rule.accepts t = true ∧ t.text = name := by
  obtain ⟨kind, text, offset⟩ := t
  cases rule <;> cases kind <;>
    simp [Slot.Admits, CalleeRule.accepts, Token.spelling, Token.isClose]

theorem Slot.admits_strict {s : Slot} {t : Token} :
    s.Admits .strict t ↔ s.spelling = t.spelling := by
  cases s <;> exact eq_comm

theorem admits_opening {rule : CalleeRule} {t : Token} :
    (Slot.fixed .paren "(").Admits rule t ↔ t.isOpen = true := by
  cases rule <;> simp [Slot.Admits, Token.spelling, Token.isOpen]

theorem admits_closing {rule : CalleeRule} {t : Token} :
    (Slot.fixed .paren ")").Admits rule t ↔ t.isClose = true := by
  cases rule <;> simp [Slot.Admits, Token.spelling, Token.isClose]

theorem admits_literal {rule : CalleeRule} {l : Literal} {t : Token} :
    (Slot.fixed l.kind.tokenKind l.value).Admits rule t ↔ literal? t = some l := by
  obtain ⟨kind, text, offset⟩ := t
  obtain ⟨k, value⟩ := l
  cases kind <;> cases k <;>
    simp [Slot.Admits, Token.spelling, literal?, Literal.Kind.tokenKind]

/-! ## What has been read -/

def OpenCall.slots (c : OpenCall) : List Slot :=
  .fixed .paren "(" :: .callee c.name :: c.params.reverse.flatMap Expr.slots

def Reading.slots (r : Reading) : List Slot :=
  r.body.reverse.flatMap Expr.slots ++ r.calls.reverse.flatMap OpenCall.slots
    ++ if r.calleeDue then [.fixed .paren "("] else []

theorem OpenCall.slots_close (c : OpenCall) :
    c.close.slots = c.slots ++ [.fixed .paren ")"] := by
  rw [OpenCall.close, Expr.slots_call]
  rfl

namespace Reading

@[simp] theorem add_calleeDue (r : Reading) (e : Expr) : (r.add e).calleeDue = r.calleeDue := rfl

theorem slots_add {r : Reading} (due : r.calleeDue = false) (e : Expr) :
    (r.add e).slots = r.slots ++ e.slots := by
  unfold add Draft.add
  split
  · rename_i hs
    simp [slots, due, hs]
  · rename_i c calls hs
    simp [slots, due, hs, OpenCall.slots]

theorem slots_of_takes {rule : CalleeRule} {r s : Reading} {t : Token} (h : Takes rule r t s) :
    ∃ slot, slot.Admits rule t ∧ s.slots = r.slots ++ [slot] := by
  cases h with
  | callee due accepted =>
    refine ⟨.callee t.text, Slot.admits_callee.mpr ⟨accepted, rfl⟩, ?_⟩
    simp [slots, due, OpenCall.slots]
  | opening due opens =>
    refine ⟨.fixed .paren "(", admits_opening.mpr opens, ?_⟩
    simp [slots, due]
  | @closing c calls due closes inside =>
    refine ⟨.fixed .paren ")", admits_closing.mpr closes, ?_⟩
    rw [slots_add (r := { r with calls := calls }) due, OpenCall.slots_close]
    simp [slots, due, inside]
  | @literal l due spells =>
    refine ⟨.fixed l.kind.tokenKind l.value, admits_literal.mpr spells, ?_⟩
    rw [slots_add due]
    rfl

/-- The invariant of a run: what has been read is spelled by the tokens taken. -/
theorem slots_of_readAll {rule : CalleeRule} {r s : Reading} {ts us : List Token}
    (hr : List.Forall₂ (Slot.Admits rule) r.slots ts) (h : r.readAll rule us = .ok s) :
    List.Forall₂ (Slot.Admits rule) s.slots (ts ++ us) := by
  induction us generalizing r ts with
  | nil =>
    cases Except.ok.inj h
    simpa using hr
  | cons u us ih =>
    obtain ⟨r', ht⟩ | ⟨f, hf⟩ := takes_or_refuses rule r u
    · rw [readAll_cons_of_takes ht] at h
      obtain ⟨slot, ha, hs⟩ := slots_of_takes ht
      have hr' : List.Forall₂ (Slot.Admits rule) r'.slots (ts ++ [u]) := by
        rw [hs]
        exact List.rel_append hr (.cons ha .nil)
      simpa using ih hr' h
    · rw [readAll_cons_of_refuses hf] at h
      contradiction

/-! ## Reading what is spelled -/

def addAll (r : Reading) (es : List Expr) : Reading := es.foldl add r

@[simp] theorem addAll_calleeDue (r : Reading) (es : List Expr) :
    (r.addAll es).calleeDue = r.calleeDue := by
  induction es generalizing r with
  | nil => rfl
  | cons e es ih => exact (ih (r.add e)).trans (r.add_calleeDue e)

theorem addAll_append (r : Reading) (es fs : List Expr) :
    r.addAll (es ++ fs) = (r.addAll es).addAll fs := List.foldl_append

theorem addAll_inside {r : Reading} {c : OpenCall} {calls : List OpenCall}
    (inside : r.calls = c :: calls) (es : List Expr) :
    r.addAll es = { r with calls := { c with params := es.reverse ++ c.params } :: calls } := by
  induction es generalizing r c with
  | nil => simp [addAll, ← inside]
  | cons e es ih =>
    have hadd : r.add e = { r with calls := { c with params := e :: c.params } :: calls } := by
      simp [add, Draft.add, inside]
    have hrest := ih (r := r.add e) (by rw [hadd])
    rw [show r.addAll (e :: es) = (r.add e).addAll es from rfl, hrest, hadd]
    simp

theorem addAll_outside {r : Reading} (outside : r.calls = []) (es : List Expr) :
    r.addAll es = { r with body := es.reverse ++ r.body } := by
  induction es generalizing r with
  | nil => rfl
  | cons e es ih =>
    have hadd : r.add e = { r with body := e :: r.body } := by
      simp [add, Draft.add, outside]
    have hrest := ih (r := r.add e) (by rw [hadd]; exact outside)
    rw [show r.addAll (e :: es) = (r.add e).addAll es from rfl, hrest, hadd]
    simp

/-- Tokens for these slots, wherever an expression may stand and whatever comes
after them, add just these expressions to what was read. -/
def Adds (rule : CalleeRule) (slots : List Slot) (es : List Expr) : Prop :=
  ∀ ⦃r : Reading⦄ ⦃more : List Slot⦄ ⦃ts : List Token⦄, r.calleeDue = false →
    List.Forall₂ (Slot.Admits rule) (slots ++ more) ts →
    ∃ us, List.Forall₂ (Slot.Admits rule) more us ∧
      r.readAll rule ts = (r.addAll es).readAll rule us

theorem Adds.nil {rule : CalleeRule} : Adds rule [] [] := by
  intro r more ts _ h
  exact ⟨ts, h, rfl⟩

theorem Adds.append {rule : CalleeRule} {slots slots' : List Slot} {es fs : List Expr}
    (he : Adds rule slots es) (hf : Adds rule slots' fs) :
    Adds rule (slots ++ slots') (es ++ fs) := by
  intro r more ts due h
  rw [List.append_assoc] at h
  obtain ⟨us, hus, hread⟩ := he due h
  obtain ⟨vs, hvs, hread'⟩ := hf ((r.addAll_calleeDue es).trans due) hus
  exact ⟨vs, hvs, by rw [hread, hread', addAll_append]⟩

theorem Adds.literal {rule : CalleeRule} (l : Literal) :
    Adds rule (Expr.literal l).slots [.literal l] := by
  intro r more ts due h
  obtain ⟨t, us, ha, hus, rfl⟩ := List.forall₂_cons_left_iff.mp h
  exact ⟨us, hus, readAll_cons_of_takes (.literal due (admits_literal.mp ha)) us⟩

theorem Adds.call {rule : CalleeRule} {name : String} {params : List Expr}
    (hp : Adds rule (params.flatMap Expr.slots) params) :
    Adds rule (Expr.call name params).slots [.call name params] := by
  rintro ⟨⟨body, calls⟩, due⟩ more ts rfl h
  rw [Expr.slots_call, List.cons_append, List.cons_append, List.append_assoc] at h
  obtain ⟨o, ts₁, ho, h₁, rfl⟩ := List.forall₂_cons_left_iff.mp h
  obtain ⟨n, ts₂, hn, h₂, rfl⟩ := List.forall₂_cons_left_iff.mp h₁
  obtain ⟨accepted, rfl⟩ := Slot.admits_callee.mp hn
  -- the parameters go to the call that the first two tokens open
  obtain ⟨us, hus, hread⟩ := hp (r := ⟨⟨body, { name := n.text } :: calls⟩, false⟩) rfl h₂
  obtain ⟨c, vs, hc, hvs, rfl⟩ := List.forall₂_cons_left_iff.mp hus
  refine ⟨vs, hvs, ?_⟩
  calc readAll rule ⟨⟨body, calls⟩, false⟩ (o :: n :: ts₂)
      = readAll rule ⟨⟨body, calls⟩, true⟩ (n :: ts₂) :=
        readAll_cons_of_takes (.opening rfl (admits_opening.mp ho)) _
    _ = readAll rule ⟨⟨body, { name := n.text } :: calls⟩, false⟩ ts₂ :=
        readAll_cons_of_takes (.callee rfl accepted) _
    _ = readAll rule ⟨⟨body, ⟨n.text, params.reverse⟩ :: calls⟩, false⟩ (c :: vs) := by
        rw [hread, addAll_inside rfl, List.append_nil]
    _ = readAll rule (add ⟨⟨body, calls⟩, false⟩ (OpenCall.close ⟨n.text, params.reverse⟩)) vs :=
        readAll_cons_of_takes (.closing rfl (admits_closing.mp hc) rfl) _
    _ = readAll rule (addAll ⟨⟨body, calls⟩, false⟩ [.call n.text params]) vs := by
        rw [OpenCall.close, List.reverse_reverse]
        rfl

theorem Adds.all {rule : CalleeRule} {es : List Expr} (h : ∀ e ∈ es, Adds rule e.slots [e]) :
    Adds rule (es.flatMap Expr.slots) es := by
  induction es with
  | nil => exact .nil
  | cons e es ih =>
    have htail := ih fun e he => h e (List.mem_cons_of_mem _ he)
    exact (h e List.mem_cons_self).append htail

theorem adds_expr {rule : CalleeRule} (e : Expr) : Adds rule e.slots [e] := by
  induction e with
  | literal l => exact .literal l
  | call name params ih => exact .call (.all ih)

theorem slots_of_isComplete {r : Reading} (h : r.isComplete = true) :
    r.slots = r.body.reverse.flatMap Expr.slots := by
  obtain ⟨due, outside⟩ := isComplete_iff.mp h
  simp [slots, due, outside]

end Reading

/-! ## The accepted token lists -/

theorem parse_sound {rule : CalleeRule} {ts : List Token} {p : Program}
    (h : parse rule ts = .ok p) : List.Forall₂ (Slot.Admits rule) p.slots ts := by
  obtain ⟨r, hread, hc, rfl⟩ := parse_eq_ok_iff.mp h
  have hs : List.Forall₂ (Slot.Admits rule) r.slots ([] ++ ts) :=
    Reading.slots_of_readAll .nil hread
  rwa [Reading.slots_of_isComplete hc] at hs

theorem parse_complete {rule : CalleeRule} {ts : List Token} {p : Program}
    (h : List.Forall₂ (Slot.Admits rule) p.slots ts) : parse rule ts = .ok p := by
  have hadds : Reading.Adds rule p.slots p.body := .all fun e _ => Reading.adds_expr e
  rw [← List.append_nil p.slots] at h
  obtain ⟨us, hus, hread⟩ := hadds (r := {}) rfl h
  cases List.forall₂_nil_left_iff.mp hus
  rw [Reading.addAll_outside rfl, List.append_nil] at hread
  refine parse_eq_ok_iff.mpr ⟨_, hread, rfl, ?_⟩
  rw [List.reverse_reverse]

theorem admits_strict_iff_map {slots : List Slot} {ts : List Token} :
    List.Forall₂ (Slot.Admits .strict) slots ts ↔
      ts.map Token.spelling = slots.map Slot.spelling := by
  rw [eq_comm, ← List.forall₂_eq_eq_eq, List.forall₂_map_left_iff, List.forall₂_map_right_iff]
  exact ⟨.imp fun _ _ => Slot.admits_strict.mp, .imp fun _ _ => Slot.admits_strict.mpr⟩

/-- What holds of the spelling of every token holds of every slot they fill. -/
theorem spelling_of_parse {P : Token.Kind × String → Prop} {ts : List Token} {p : Program}
    (hts : ∀ t ∈ ts, P t.spelling) (h : parse .strict ts = .ok p) :
    ∀ s ∈ p.slots, P s.spelling := by
  have hflat := admits_strict_iff_map.mp (parse_sound h)
  intro s hs
  have hmem := List.mem_map_of_mem (f := Slot.spelling) hs
  rw [← hflat] at hmem
  obtain ⟨t, ht, hspell⟩ := List.mem_map.mp hmem
  exact hspell ▸ hts t ht

/-- Parsing accepts the spellings of programs and nothing else, and returns the
program that is spelled. When callees must be names, a program has one
spelling; otherwise each callee may be any token with its text but a closing
parenthesis. -/
theorem parse_eq_ok_iff_spells (ts : List Token) (p : Program) :
    (parse .strict ts = .ok p ↔ ts.map Token.spelling = p.flatten) ∧
    (parse .permissive ts = .ok p ↔ List.Forall₂ (Slot.Admits .permissive) p.slots ts) :=
  ⟨⟨fun h => admits_strict_iff_map.mp (parse_sound h),
      fun h => parse_complete (admits_strict_iff_map.mpr h)⟩,
    ⟨parse_sound, parse_complete⟩⟩

end Source

end ParenCall
