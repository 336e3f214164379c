import ParenCall.Source.Parser

/-! # Reading token by token

Parsing takes the opening parenthesis of a call and the callee in one turn. Here
the tokens are taken one at a time: an opening parenthesis only makes a callee
due. What one token can do to a reading is said once: `Takes` has a constructor
for each way a token is taken and `Refuses` one for each way it is refused, and
reading a token is one or the other. A run over a token list is a fold of such
steps, so it splits wherever the list does, and a refusal ends it whatever the
tokens behind it are. -/

namespace ParenCall

namespace Token

theorem kind_of_isOpen {t : Token} (h : t.isOpen = true) : t.kind = .paren := by
  simp only [isOpen, Bool.and_eq_true, beq_iff_eq] at h
  exact h.1

theorem kind_of_isClose {t : Token} (h : t.isClose = true) : t.kind = .paren := by
  simp only [isClose, Bool.and_eq_true, beq_iff_eq] at h
  exact h.1

theorem isOpen_eq_false_of_isClose {t : Token} (h : t.isClose = true) : t.isOpen = false := by
  simp only [isClose, Bool.and_eq_true, beq_iff_eq] at h
  simp [isOpen, h]

theorem isClose_eq_false_of_isOpen {t : Token} (h : t.isOpen = true) : t.isClose = false := by
  simp only [isOpen, Bool.and_eq_true, beq_iff_eq] at h
  simp [isClose, h]

end Token

namespace Source

theorem literal?_eq_none_of_paren {t : Token} (h : t.kind = .paren) : literal? t = none := by
  rw [literal?, h]

/-- A literal is no parenthesis. -/
theorem not_paren_of_literal? {t : Token} {l : Literal} (h : literal? t = some l) :
    t.isOpen = false ∧ t.isClose = false := by
  have hk : t.kind ≠ .paren := by
    intro hk
    rw [literal?_eq_none_of_paren hk] at h
    contradiction
  exact ⟨Bool.eq_false_iff.mpr fun ho => hk (Token.kind_of_isOpen ho),
    Bool.eq_false_iff.mpr fun hc => hk (Token.kind_of_isClose hc)⟩

/-- How far reading has come, and whether a callee is due. -/
structure Reading extends Draft where
  calleeDue : Bool := false

namespace Reading

def add (r : Reading) (e : Expr) : Reading := { r with toDraft := r.toDraft.add e }

def readCallee (rule : CalleeRule) (r : Reading) (t : Token) : Except Fault Reading :=
  if rule.accepts t then .ok { r with calls := { name := t.text } :: r.calls, calleeDue := false }
  else .error (.invalidCallee t)

def readLiteral (r : Reading) (t : Token) : Except Fault Reading :=
  match literal? t with
  | some l => .ok (r.add (.literal l))
  | none => .error (.unexpectedToken t)

/-- A closing parenthesis outside of any call is read as a literal would be,
and refused. -/
def readClose (r : Reading) (t : Token) : Except Fault Reading :=
  match r.calls with
  | [] => r.readLiteral t
  | c :: calls => .ok ({ r with calls := calls }.add c.close)

def read (rule : CalleeRule) (r : Reading) (t : Token) : Except Fault Reading :=
  if r.calleeDue then r.readCallee rule t
  else if t.isOpen then .ok { r with calleeDue := true }
  else if t.isClose then r.readClose t
  else r.readLiteral t

def isComplete (r : Reading) : Bool := !r.calleeDue && r.calls.isEmpty

/-! ## One token -/

inductive Takes (rule : CalleeRule) (r : Reading) (t : Token) : Reading → Prop
  | callee (due : r.calleeDue = true) (accepted : rule.accepts t = true) :
      Takes rule r t { r with calls := { name := t.text } :: r.calls, calleeDue := false }
  | opening (due : r.calleeDue = false) (opens : t.isOpen = true) :
      Takes rule r t { r with calleeDue := true }
  | closing {c : OpenCall} {calls : List OpenCall} (due : r.calleeDue = false)
      (closes : t.isClose = true) (inside : r.calls = c :: calls) :
      Takes rule r t ({ r with calls := calls }.add c.close)
  | literal {l : Literal} (due : r.calleeDue = false) (spells : literal? t = some l) :
      Takes rule r t (r.add (.literal l))

inductive Refuses (rule : CalleeRule) (r : Reading) (t : Token) : Fault → Prop
  | callee (due : r.calleeDue = true) (rejected : rule.accepts t = false) :
      Refuses rule r t (.invalidCallee t)
  | token (due : r.calleeDue = false) (opens : t.isOpen = false)
      (outside : t.isClose = true → r.calls = []) (spells : literal? t = none) :
      Refuses rule r t (.unexpectedToken t)

theorem read_of_takes {rule : CalleeRule} {r s : Reading} {t : Token} (h : Takes rule r t s) :
    r.read rule t = .ok s := by
  cases h with
  | callee due accepted => simp [read, readCallee, due, accepted]
  | opening due opens => simp [read, due, opens]
  | closing due closes inside =>
    simp [read, readClose, due, Token.isOpen_eq_false_of_isClose closes, closes, inside]
  | @literal l due spells =>
    obtain ⟨hopen, hclose⟩ := not_paren_of_literal? spells
    simp [read, readLiteral, due, hopen, hclose, spells]

theorem read_of_refuses {rule : CalleeRule} {r : Reading} {t : Token} {f : Fault}
    (h : Refuses rule r t f) : r.read rule t = .error f := by
  cases h with
  | callee due rejected => simp [read, readCallee, due, rejected]
  | token due opens outside spells =>
    by_cases hc : t.isClose = true
    · simp [read, readClose, readLiteral, due, opens, hc, outside hc, spells]
    · simp [read, readLiteral, due, opens, hc, spells]

theorem takes_or_refuses (rule : CalleeRule) (r : Reading) (t : Token) :
    (∃ s, Takes rule r t s) ∨ ∃ f, Refuses rule r t f := by
  cases due : r.calleeDue with
  | true =>
    cases ha : rule.accepts t with
    | true => exact .inl ⟨_, .callee due ha⟩
    | false => exact .inr ⟨_, .callee due ha⟩
  | false =>
    cases ho : t.isOpen with
    | true => exact .inl ⟨_, .opening due ho⟩
    | false =>
      cases hl : literal? t with
      | some l => exact .inl ⟨_, .literal due hl⟩
      | none =>
        cases hs : r.calls with
        | nil => exact .inr ⟨_, .token due ho (fun _ => hs) hl⟩
        | cons c calls =>
          cases hc : t.isClose with
          | true => exact .inl ⟨_, .closing due hc hs⟩
          | false => exact .inr ⟨_, .token due ho (by simp [hc]) hl⟩

/-! ## A list of tokens -/

def readAll (rule : CalleeRule) (r : Reading) (ts : List Token) : Except Fault Reading :=
  ts.foldlM (read rule) r

theorem readAll_cons_of_takes {rule : CalleeRule} {r s : Reading} {t : Token}
    (h : Takes rule r t s) (ts : List Token) : r.readAll rule (t :: ts) = s.readAll rule ts := by
  rw [readAll, List.foldlM_cons, read_of_takes h]
  rfl

theorem readAll_cons_of_refuses {rule : CalleeRule} {r : Reading} {t : Token} {f : Fault}
    (h : Refuses rule r t f) (ts : List Token) : r.readAll rule (t :: ts) = .error f := by
  rw [readAll, List.foldlM_cons, read_of_refuses h]
  rfl

theorem readAll_append_of_ok {rule : CalleeRule} {r s : Reading} {ts : List Token}
    (h : r.readAll rule ts = .ok s) (us : List Token) :
    r.readAll rule (ts ++ us) = s.readAll rule us := by
  rw [readAll] at h
  rw [readAll, List.foldlM_append, h]
  rfl

theorem readAll_append_of_error {rule : CalleeRule} {r : Reading} {ts : List Token} {f : Fault}
    (h : r.readAll rule ts = .error f) (us : List Token) :
    r.readAll rule (ts ++ us) = .error f := by
  rw [readAll] at h
  rw [readAll, List.foldlM_append, h]
  rfl

/-- A run that fails does so at the first token that is refused. -/
theorem readAll_eq_error {rule : CalleeRule} {r : Reading} {ts : List Token} {f : Fault}
    (h : r.readAll rule ts = .error f) :
    ∃ pre t post s, ts = pre ++ t :: post ∧ r.readAll rule pre = .ok s ∧ Refuses rule s t f := by
  induction ts generalizing r with
  | nil => contradiction
  | cons t ts ih =>
    obtain ⟨s, ht⟩ | ⟨g, hg⟩ := takes_or_refuses rule r t
    · rw [readAll_cons_of_takes ht] at h
      obtain ⟨pre, u, post, s', rfl, hpre, hu⟩ := ih h
      exact ⟨t :: pre, u, post, s', rfl, (readAll_cons_of_takes ht pre).trans hpre, hu⟩
    · rw [readAll_cons_of_refuses hg] at h
      exact ⟨[], t, ts, r, rfl, rfl, Except.error.inj h ▸ hg⟩

/-! ## From one run to another -/

section Transport

variable {rule rule' : CalleeRule} {onReading : Reading → Reading} {onToken : Token → Token}

/-- What turns each step into a step turns each run into a run. -/
theorem readAll_ok_transport
    (takes : ∀ ⦃r t s⦄, Takes rule r t s → Takes rule' (onReading r) (onToken t) (onReading s))
    {r s : Reading} {ts : List Token} (h : r.readAll rule ts = .ok s) :
    (onReading r).readAll rule' (ts.map onToken) = .ok (onReading s) := by
  induction ts generalizing r with
  | nil =>
    cases Except.ok.inj h
    rfl
  | cons t ts ih =>
    obtain ⟨r', ht⟩ | ⟨f, hf⟩ := takes_or_refuses rule r t
    · rw [readAll_cons_of_takes ht] at h
      rw [List.map_cons, readAll_cons_of_takes (takes ht)]
      exact ih h
    · rw [readAll_cons_of_refuses hf] at h
      contradiction

/-- A refusal is carried over when the steps before it are and it is itself. -/
theorem readAll_error_transport
    (takes : ∀ ⦃r t s⦄, Takes rule r t s → Takes rule' (onReading r) (onToken t) (onReading s))
    {f f' : Fault}
    (refuses : ∀ ⦃r t⦄, Refuses rule r t f → Refuses rule' (onReading r) (onToken t) f')
    {r : Reading} {ts : List Token} (h : r.readAll rule ts = .error f) :
    (onReading r).readAll rule' (ts.map onToken) = .error f' := by
  obtain ⟨pre, t, post, s, rfl, hpre, hf⟩ := readAll_eq_error h
  have hrun := readAll_ok_transport takes hpre
  rw [List.map_append, List.map_cons, readAll_append_of_ok hrun]
  exact readAll_cons_of_refuses (refuses hf) _

end Transport

theorem isComplete_iff {r : Reading} :
    r.isComplete = true ↔ r.calleeDue = false ∧ r.calls = [] := by
  simp [isComplete]

end Reading

end Source

end ParenCall
