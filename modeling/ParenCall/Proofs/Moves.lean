import ParenCall.Proofs.Driving
import ParenCall.Proofs.Report

/-! # Where a cursor stands after any moves

A move never touches the token list and never goes back. How far it goes depends
on the move, on whether it succeeds and on how many tokens are left; opening a
call is the one move that also goes on when it fails. What holds of one move is
carried over to every run of moves, refused ones included. -/

namespace ParenCall.Source

/-- How many tokens a move passes when so many are left. -/
def Move.distance (m : Move) (succeeded : Bool) (left : Nat) : Nat :=
  match m with
  | .atEnd | .current | .endOffset => 0
  | .advance | .readLiteral => if succeeded then 1 else 0
  | .openCall => min 2 left

namespace Cursor

/-! ## Single moves -/

theorem length_tokens (c : Cursor) : c.tokens.length = c.index + c.rest.length := by
  simp [tokens, index]

/-- What a move does: it keeps the tokens, goes as far as it should, and tells
the end of the list if it reports the end of the input. -/
structure Disciplined (m : Move) (before : Cursor) (reply : Except Fault Reply)
    (after : Cursor) : Prop where
  tokens : after.tokens = before.tokens
  index : after.index =
    before.index + m.distance reply.isOk (before.tokens.length - before.index)
  ends : ∀ offset, reply = .error (.endOfInput offset) → offset = Token.endOf before.tokens

theorem advance_disciplined (c : Cursor) :
    Disciplined .advance c (c.advance.1.map .token) c.advance.2 := by
  cases hrest : c.rest with
  | nil =>
    rw [advance_of_nil hrest]
    refine ⟨rfl, rfl, ?_⟩
    intro offset h
    cases h
    rfl
  | cons t rest =>
    have hkept := c.tokens_advance
    rw [advance_of_cons hrest] at hkept ⊢
    exact ⟨hkept, rfl, by intro offset h; cases h⟩

theorem readLiteral_disciplined (c : Cursor) :
    Disciplined .readLiteral c (c.readLiteral.1.map .literal) c.readLiteral.2 := by
  cases hrest : c.rest with
  | nil =>
    rw [readLiteral_of_nil hrest]
    refine ⟨rfl, rfl, ?_⟩
    intro offset h
    cases h
    rfl
  | cons t rest =>
    have hkept := c.tokens_readLiteral
    cases hl : literal? t with
    | some l =>
      rw [readLiteral_of_some hrest hl] at hkept ⊢
      exact ⟨hkept, rfl, by intro offset h; cases h⟩
    | none =>
      rw [readLiteral_of_none hrest hl]
      exact ⟨rfl, rfl, by intro offset h; cases h⟩

/-- Where the call is refused, the tokens before the refusal stay taken. -/
theorem openCall_disciplined (rule : CalleeRule) (c : Cursor) :
    Disciplined .openCall c ((c.openCall rule).1.map .callee) (c.openCall rule).2 := by
  have hkept := c.tokens_openCall rule
  have hleft : c.tokens.length - c.index = c.rest.length := by
    rw [length_tokens]
    omega
  -- Two tokens are taken blindly, so what matters is whether there are two.
  match hrest : c.rest with
  | [] =>
    rw [hrest] at hleft
    rw [openCall_of_nil hrest]
    refine ⟨rfl, by rw [hleft]; rfl, ?_⟩
    intro offset h
    cases h
    rfl
  | [t] =>
    rw [hrest] at hleft
    rw [openCall_of_singleton hrest] at hkept ⊢
    refine ⟨hkept, by rw [hleft]; rfl, ?_⟩
    intro offset h
    cases h
    rfl
  | t :: u :: rest =>
    have htwo : min 2 (c.tokens.length - c.index) = 2 := by
      rw [hleft, hrest, List.length_cons, List.length_cons]
      omega
    rw [openCall_of_cons hrest] at hkept ⊢
    refine ⟨hkept, by rw [Move.distance, htwo]; rfl, ?_⟩
    intro offset h
    dsimp only at h
    split at h <;> cases h

theorem move_disciplined (rule : CalleeRule) (c : Cursor) (m : Move) :
    Disciplined m c (c.move rule m).1 (c.move rule m).2 := by
  cases m with
  | atEnd => exact ⟨rfl, rfl, by intro offset h; cases h⟩
  | current =>
    refine ⟨rfl, rfl, ?_⟩
    intro offset h
    rw [move, current_eq] at h
    exact c.advance_disciplined.ends offset h
  | advance => exact c.advance_disciplined
  | endOffset => exact ⟨rfl, rfl, by intro offset h; cases h⟩
  | readLiteral => exact c.readLiteral_disciplined
  | openCall => exact c.openCall_disciplined rule

theorem atEnd_iff_advance_fails (rule : CalleeRule) (c : Cursor) :
    (c.move rule .atEnd).1 = .ok (.flag true) ↔ ∃ f, (c.move rule .advance).1 = .error f := by
  cases hrest : c.rest with
  | nil =>
    simp [move, atEnd, hrest, advance_of_nil hrest, Except.map]
  | cons t rest =>
    simp [move, atEnd, hrest, advance_of_cons hrest, Except.map]

/-! ## Runs -/

/-- The cursors of a run, the one it starts with included. -/
def stops (rule : CalleeRule) (c : Cursor) (moves : List Move) : List Cursor :=
  c :: (c.run rule moves).map Prod.snd

theorem stops_cons (rule : CalleeRule) (c : Cursor) (m : Move) (moves : List Move) :
    c.stops rule (m :: moves) = c :: (c.move rule m).2.stops rule moves := rfl

theorem length_run (rule : CalleeRule) (c : Cursor) (moves : List Move) :
    (c.run rule moves).length = moves.length := by
  induction moves generalizing c with
  | nil => rfl
  | cons m moves ih => rw [run, List.length_cons, ih, List.length_cons]

/-- What every move keeps holds of all cursors of a run. -/
theorem of_mem_stops {P : Cursor → Prop} {rule : CalleeRule} {c d : Cursor} {moves : List Move}
    (hstep : ∀ b m, P b → P (b.move rule m).2) (hc : P c) (h : d ∈ c.stops rule moves) : P d := by
  induction moves generalizing c with
  | nil =>
    rw [List.mem_singleton.mp h]
    exact hc
  | cons m moves ih =>
    rw [stops_cons] at h
    cases h with
    | head => exact hc
    | tail _ h => exact ih (hstep c m hc) h

theorem tokens_of_mem_stops {rule : CalleeRule} {c d : Cursor} {moves : List Move}
    (h : d ∈ c.stops rule moves) : d.tokens = c.tokens := by
  refine of_mem_stops (P := fun d => d.tokens = c.tokens) ?_ rfl h
  intro b m hb
  exact (b.tokens_move rule m).trans hb

theorem index_le_of_mem_stops {rule : CalleeRule} {c d : Cursor} {moves : List Move}
    (h : d ∈ c.stops rule moves) : c.index ≤ d.index := by
  refine of_mem_stops (P := fun d => c.index ≤ d.index) ?_ (Nat.le_refl _) h
  intro b m hb
  have hmove := (b.move_disciplined rule m).index
  omega

theorem pairwise_index_stops (rule : CalleeRule) (c : Cursor) (moves : List Move) :
    ((c.stops rule moves).map index).Pairwise (· ≤ ·) := by
  induction moves generalizing c with
  | nil => exact List.pairwise_singleton _ _
  | cons m moves ih =>
    rw [stops_cons, List.map_cons, List.pairwise_cons]
    refine ⟨?_, ih _⟩
    intro n hn
    obtain ⟨d, hd, hn⟩ := List.mem_map.mp hn
    have hmem : d ∈ c.stops rule (m :: moves) := List.mem_cons_of_mem c hd
    rw [← hn]
    exact index_le_of_mem_stops hmem

/-- Every step of a run is a single move of the cursor before it. -/
theorem getElem?_run {rule : CalleeRule} {c : Cursor} {moves : List Move} {k : Nat} {m : Move}
    (h : moves[k]? = some m) :
    ∃ before, (c.stops rule moves)[k]? = some before ∧
      (c.run rule moves)[k]? = some (before.move rule m) := by
  induction moves generalizing c k with
  | nil => simp at h
  | cons first moves ih =>
    cases k with
    | zero =>
      cases h
      exact ⟨c, rfl, rfl⟩
    | succ k => exact ih h

theorem exists_move_of_mem_run {rule : CalleeRule} {c : Cursor} {moves : List Move}
    {reply : Except Fault Reply} {after : Cursor} (h : (reply, after) ∈ c.run rule moves) :
    ∃ m before, before ∈ c.stops rule moves ∧ before.move rule m = (reply, after) := by
  obtain ⟨k, hk⟩ := List.getElem?_of_mem h
  have hlt : k < moves.length := by
    rw [← length_run rule c moves]
    exact (List.getElem?_eq_some_iff.mp hk).1
  obtain ⟨before, hbefore, hstep⟩ := @getElem?_run rule c moves k _ (List.getElem?_eq_getElem hlt)
  exact ⟨moves[k], before, List.mem_of_getElem? hbefore, Option.some.inj (hstep.symm.trans hk)⟩

theorem offset_of_mem_run {rule : CalleeRule} {c after : Cursor} {moves : List Move} {f : Fault}
    (h : (.error f, after) ∈ c.run rule moves) (hcode : f.code = .endOfInput) :
    f.offset = Token.endOf c.tokens := by
  obtain ⟨m, before, hbefore, hstep⟩ := exists_move_of_mem_run h
  cases f with
  | unexpectedToken t => cases hcode
  | invalidCallee t => cases hcode
  | endOfInput offset =>
    have hends := (before.move_disciplined rule m).ends offset
    rw [hstep, tokens_of_mem_stops hbefore] at hends
    exact hends rfl

/-- On every run over a token list, whatever moves are made and refused, the
list stays as it is and the cursor never goes back or out of it. Each move goes
exactly as far as `Move.distance` says, every end of input that is reported is
the end of the last token, and being at the end is the same as being unable to
advance. -/
theorem run_goes_exact_distances (rule : CalleeRule) (ts : List Token) (moves : List Move) :
    let start : Cursor := { rest := ts }
    let run := start.run rule moves
    let cursors := start :: run.map Prod.snd
    run.length = moves.length ∧ start.index = 0 ∧
      (∀ c ∈ cursors, c.tokens = ts ∧ c.index ≤ ts.length) ∧
      (cursors.map index).Pairwise (· ≤ ·) ∧
      (∀ (k : Nat) (m : Move), moves[k]? = some m →
        ∃ (before after : Cursor) (reply : Except Fault Reply),
          cursors[k]? = some before ∧ run[k]? = some (reply, after) ∧
          after.index = before.index + m.distance reply.isOk (ts.length - before.index)) ∧
      (∀ f after, (.error f, after) ∈ run →
        ∃ d, f.failure = .diagnostic d ∧ (d.code = .endOfInput →
          d.offset = ts.getLast?.map fun last =>
            (last.offset + last.text.length + if last.kind = .string then 2 else 0 : Int))) ∧
      (Token.endOf ts = none ↔ ts = []) ∧
      ∀ c ∈ cursors, (c.move rule .atEnd).1 = .ok (.flag true) ↔
        ∃ f, (c.move rule .advance).1 = .error f := by
  intro start run cursors
  have htokens : ∀ c ∈ cursors, c.tokens = ts := by
    intro c hc
    exact tokens_of_mem_stops hc
  refine ⟨length_run rule start moves, rfl, ?_, pairwise_index_stops rule start moves, ?_, ?_, ?_,
    ?_⟩
  · intro c hc
    have hlength := c.length_tokens
    rw [htokens c hc] at hlength
    exact ⟨htokens c hc, by omega⟩
  · intro k m hm
    obtain ⟨before, hbefore, hstep⟩ := @getElem?_run rule start _ _ _ hm
    have hindex := (before.move_disciplined rule m).index
    rw [htokens before (List.mem_of_getElem? hbefore)] at hindex
    exact ⟨before, _, _, hbefore, hstep, hindex⟩
  · intro f after hmem
    obtain ⟨d, hd, _, _, hcode, _, hoffset⟩ := f.failure_raised
    refine ⟨d, hd, ?_⟩
    intro hend
    rw [hoffset]
    exact offset_of_mem_run hmem (hcode.symm.trans hend)
  · simp [Token.endOf]
  · intro c _
    exact c.atEnd_iff_advance_fails rule

end Cursor

end ParenCall.Source
