import ParenCall.Proofs.Reading

/-! # Parsing is a run of reading

Parsing drives a cursor; reading takes the tokens one by one and knows of no
cursor. Each turn of the driver is a run of reading over the tokens that the
cursor passes: one token for a literal and for a closing parenthesis, two for an
opening parenthesis with its callee. A turn is refused where reading is, or for
want of a token. So parsing a list is reading it, and then asking whether a call
was left open. -/

namespace ParenCall.Source

/-! ## Moves of the cursor -/

namespace Cursor

variable {rule : CalleeRule} {c : Cursor} {t : Token} {rest : List Token}

theorem advance_of_nil (h : c.rest = []) :
    c.advance = (.error (.endOfInput (Token.endOf c.tokens)), c) := by
  unfold advance
  rw [h]
  rfl

theorem advance_of_cons (h : c.rest = t :: rest) :
    c.advance = (.ok t, ⟨t :: c.done, rest⟩) := by
  unfold advance
  rw [h]

theorem current_eq (c : Cursor) : c.current = c.advance.1 := by
  unfold current advance
  split <;> rfl

theorem readLiteral_of_nil (h : c.rest = []) :
    c.readLiteral = (.error (.endOfInput (Token.endOf c.tokens)), c) := by
  unfold readLiteral
  rw [current_eq, advance_of_nil h]

theorem readLiteral_of_some {l : Literal} (h : c.rest = t :: rest) (hl : literal? t = some l) :
    c.readLiteral = (.ok l, ⟨t :: c.done, rest⟩) := by
  unfold readLiteral
  rw [current_eq, advance_of_cons h]
  dsimp only
  rw [hl]

theorem readLiteral_of_none (h : c.rest = t :: rest) (hl : literal? t = none) :
    c.readLiteral = (.error (.unexpectedToken t), c) := by
  unfold readLiteral
  rw [current_eq, advance_of_cons h]
  dsimp only
  rw [hl]

theorem openCall_of_nil (h : c.rest = []) :
    c.openCall rule = (.error (.endOfInput (Token.endOf c.tokens)), c) := by
  unfold openCall
  rw [advance_of_nil h]

theorem openCall_of_singleton (h : c.rest = [t]) :
    c.openCall rule = (.error (.endOfInput (Token.endOf c.tokens)), ⟨t :: c.done, []⟩) := by
  have hkept := c.tokens_advance
  rw [advance_of_cons h] at hkept
  unfold openCall
  rw [advance_of_cons h]
  dsimp only
  rw [advance_of_nil rfl, hkept]

theorem openCall_of_cons {u : Token} (h : c.rest = t :: u :: rest) :
    c.openCall rule =
      (if rule.accepts u then .ok u.text else .error (.invalidCallee u),
        ⟨u :: t :: c.done, rest⟩) := by
  unfold openCall
  rw [advance_of_cons h]
  dsimp only
  rw [advance_of_cons rfl]

end Cursor

/-! ## Turns of the driver -/

namespace Draft

/-- What a turn amounts to: a run of reading over the tokens it passes, the
refusal of one of them, or nothing, when the token that the turn needs is
missing. -/
inductive Turns (rule : CalleeRule) (d : Draft) (c : Cursor) : Except Fault (Draft × Cursor) → Prop
  | passes {d' : Draft} {c' : Cursor} (kept : c'.tokens = c.tokens)
      (reads : Reading.readAll rule ⟨d, false⟩ c.rest = Reading.readAll rule ⟨d', false⟩ c'.rest) :
      Turns rule d c (.ok (d', c'))
  | refused {f : Fault} (reads : Reading.readAll rule ⟨d, false⟩ c.rest = .error f) :
      Turns rule d c (.error f)
  | ended {due : Bool} (reads : Reading.readAll rule ⟨d, false⟩ c.rest = .ok ⟨d, due⟩)
      (missing : c.rest = [] ∨ due = true) :
      Turns rule d c (.error (.endOfInput (Token.endOf c.tokens)))

variable {rule : CalleeRule} {d : Draft} {c : Cursor} {t : Token} {rest : List Token}

theorem turn_of_cons (h : c.rest = t :: rest) :
    d.turn rule c =
      match d.close? t with
      | some closed => .ok (closed, ⟨t :: c.done, rest⟩)
      | none =>
        if t.isOpen then
          match c.openCall rule with
          | (.error f, _) => .error f
          | (.ok name, c) => .ok ({ d with calls := { name := name } :: d.calls }, c)
        else
          match c.readLiteral with
          | (.error f, _) => .error f
          | (.ok l, c) => .ok (d.add (.literal l), c) := by
  obtain ⟨done, tokens⟩ := c
  obtain rfl : tokens = t :: rest := h
  rfl

theorem close?_eq_some {closed : Draft} (h : d.close? t = some closed) :
    t.isClose = true ∧
      ∃ call calls, d.calls = call :: calls ∧ closed = { d with calls := calls }.add call.close := by
  unfold close? at h
  split at h
  · contradiction
  · rename_i call calls hcalls
    split at h
    · rename_i closes
      exact ⟨closes, call, calls, hcalls, (Option.some.inj h).symm⟩
    · contradiction

theorem calls_of_close?_eq_none (h : d.close? t = none) (closes : t.isClose = true) :
    d.calls = [] := by
  unfold close? at h
  split at h
  · assumption
  · rw [if_pos closes] at h
    contradiction

theorem tokens_of_rest (h : c.rest = t :: rest) :
    (⟨t :: c.done, rest⟩ : Cursor).tokens = c.tokens := by
  have hkept := c.tokens_advance
  rwa [Cursor.advance_of_cons h] at hkept

theorem turns_open (h : c.rest = t :: rest) (opens : t.isOpen = true)
    (hclose : d.close? t = none) : Turns rule d c (d.turn rule c) := by
  have hopening : Reading.Takes rule ⟨d, false⟩ t ⟨d, true⟩ := .opening rfl opens
  rw [turn_of_cons h, hclose]
  dsimp only
  rw [if_pos opens]
  match rest with
  | [] =>
    rw [Cursor.openCall_of_singleton h]
    refine .ended ?_ (.inr rfl)
    rw [h, Reading.readAll_cons_of_takes hopening]
    rfl
  | u :: rest =>
    have hkept := c.tokens_openCall rule
    rw [Cursor.openCall_of_cons h] at hkept ⊢
    cases accepted : rule.accepts u with
    | true =>
      refine .passes hkept ?_
      rw [h, Reading.readAll_cons_of_takes hopening,
        Reading.readAll_cons_of_takes (.callee rfl accepted)]
    | false =>
      refine .refused ?_
      rw [h, Reading.readAll_cons_of_takes hopening,
        Reading.readAll_cons_of_refuses (.callee rfl accepted)]

theorem turns_literal (h : c.rest = t :: rest) (opens : t.isOpen = false)
    (hclose : d.close? t = none) : Turns rule d c (d.turn rule c) := by
  rw [turn_of_cons h, hclose]
  dsimp only
  rw [opens, if_neg Bool.false_ne_true]
  cases spells : literal? t with
  | some l =>
    rw [Cursor.readLiteral_of_some h spells]
    refine .passes (tokens_of_rest h) ?_
    rw [h, Reading.readAll_cons_of_takes (.literal rfl spells)]
    rfl
  | none =>
    rw [Cursor.readLiteral_of_none h spells]
    refine .refused ?_
    rw [h, Reading.readAll_cons_of_refuses
      (.token rfl opens (calls_of_close?_eq_none hclose) spells)]

theorem turns (rule : CalleeRule) (d : Draft) (c : Cursor) : Turns rule d c (d.turn rule c) := by
  match h : c.rest with
  | [] =>
    unfold turn
    rw [Cursor.current_eq, Cursor.advance_of_nil h]
    refine @Turns.ended _ _ _ false ?_ (.inl h)
    rw [h]
    rfl
  | t :: rest =>
    cases hclose : d.close? t with
    | some closed =>
      obtain ⟨closes, call, calls, inside, rfl⟩ := close?_eq_some hclose
      rw [turn_of_cons h, hclose]
      refine .passes (tokens_of_rest h) ?_
      rw [h, Reading.readAll_cons_of_takes (.closing rfl closes inside)]
      rfl
    | none =>
      cases opens : t.isOpen with
      | true => exact turns_open h opens hclose
      | false => exact turns_literal h opens hclose

end Draft

/-! ## Parsing as a run -/

/-- What a run of reading over a whole list comes to. -/
def Reading.outcome (ts : List Token) : Except Fault Reading → Except Fault Program
  | .error f => .error f
  | .ok r => if r.isComplete then .ok ⟨r.body.reverse⟩ else .error (.endOfInput (Token.endOf ts))

/-- From any turn on, parsing is reading the tokens in front of the cursor. -/
theorem Draft.drive_eq_outcome (rule : CalleeRule) (d : Draft) (c : Cursor) :
    d.drive rule c =
      Reading.outcome c.tokens (Reading.readAll rule ⟨d, false⟩ c.rest) := by
  fun_induction Draft.drive rule d c with
  | case1 d c finished =>
    obtain ⟨outside, atEnd⟩ := Bool.and_eq_true_iff.mp finished
    have hrest : c.rest = [] := List.isEmpty_iff.mp atEnd
    have complete : Reading.isComplete ⟨d, false⟩ = true := outside
    rw [hrest]
    exact (if_pos complete).symm
  | case2 d c unfinished f hturn =>
    have h := d.turns rule c
    rw [hturn] at h
    cases h with
    | refused reads =>
      rw [reads]
      rfl
    | @ended due reads missing =>
      have incomplete : Reading.isComplete ⟨d, due⟩ = false := by
        cases missing with
        | inl hrest => simp_all [Cursor.atEnd, Reading.isComplete]
        | inr hdue => rw [hdue]; rfl
      rw [reads]
      exact (if_neg (Bool.eq_false_iff.mp incomplete)).symm
  | case3 d c unfinished d' c' hturn ih =>
    have h := d.turns rule c
    rw [hturn] at h
    cases h with
    | passes kept reads => rw [ih, kept, reads]

theorem parse_eq_outcome (rule : CalleeRule) (ts : List Token) :
    parse rule ts = Reading.outcome ts (Reading.readAll rule {} ts) :=
  Draft.drive_eq_outcome rule {} { rest := ts }

theorem parse_of_outcome {rule : CalleeRule} {ts : List Token} {result : Except Fault Program}
    (h : Reading.outcome ts (Reading.readAll rule {} ts) = result) : parse rule ts = result :=
  (parse_eq_outcome rule ts).trans h

theorem parse_of_readAll_ok {rule : CalleeRule} {ts : List Token} {r : Reading}
    (h : Reading.readAll rule {} ts = .ok r) :
    parse rule ts =
      if r.isComplete then .ok ⟨r.body.reverse⟩ else .error (.endOfInput (Token.endOf ts)) := by
  rw [parse_eq_outcome, h]
  rfl

theorem parse_of_readAll_error {rule : CalleeRule} {ts : List Token} {f : Fault}
    (h : Reading.readAll rule {} ts = .error f) : parse rule ts = .error f := by
  rw [parse_eq_outcome, h]
  rfl

theorem parse_eq_ok_iff {rule : CalleeRule} {ts : List Token} {p : Program} :
    parse rule ts = .ok p ↔
      ∃ r, Reading.readAll rule {} ts = .ok r ∧ r.isComplete = true ∧ p = ⟨r.body.reverse⟩ := by
  cases h : Reading.readAll rule {} ts with
  | error f => simp [parse_of_readAll_error h]
  | ok r =>
    rw [parse_of_readAll_ok h]
    constructor
    · intro hp
      split at hp
      · rename_i hc
        exact ⟨r, rfl, hc, (Except.ok.inj hp).symm⟩
      · contradiction
    · rintro ⟨s, hs, hc, rfl⟩
      cases Except.ok.inj hs
      rw [if_pos hc]

end ParenCall.Source
