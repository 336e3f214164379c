import ParenCall.Proofs.Compilation
import ParenCall.Proofs.Lexing
import ParenCall.Proofs.Prefixes

/-! # Sources behind one another

A source that compiles leaves nothing open: its last lexeme ends at the blank
that follows it, and its last call is closed. Whatever stands behind the blank
is therefore cut and read as if it stood alone, only at higher offsets and with
the first program before it. Each stage is compared with itself on the second
source alone: cutting, reading token by token, the program, the written text. -/

namespace ParenCall

/-! ## Moved by a distance -/

def Placed.shift (k : Nat) (p : Placed) : Placed := { p with offset := p.offset + k }

def Token.shift (k : Nat) (t : Token) : Token := { t with offset := t.offset + k }

def LexFault.shift (k : Nat) : LexFault → LexFault
  | .unexpectedCharacter char offset => .unexpectedCharacter char (offset + k)
  | .unterminatedString quote offset => .unterminatedString quote (offset + k)

def Source.Fault.shift (k : Nat) : Source.Fault → Source.Fault
  | .unexpectedToken t => .unexpectedToken (t.shift k)
  | .endOfInput offset => .endOfInput (offset.map (· + (k : Int)))
  | .invalidCallee t => .invalidCallee (t.shift k)

theorem Placed.token_shift (k : Nat) (p : Placed) : (p.shift k).token = p.token.shift k := by
  simp [Placed.token, Placed.shift, Lexeme.token, Token.shift]

theorem LexFault.ofStop_shift (k : Nat) (c : Char) (offset : Nat) :
    LexFault.ofStop c (offset + k) = (LexFault.ofStop c offset).shift k := by
  unfold LexFault.ofStop
  split <;> rfl

theorem Token.endOffset_shift (k : Nat) (t : Token) :
    (t.shift k).endOffset = t.endOffset + k := by
  have hshift : (t.shift k).endOffset =
      t.offset + k + t.text.length + (if t.kind = .string then 2 else 0) := rfl
  rw [hshift, endOffset, Int.add_right_comm t.offset, Int.add_right_comm _ (k : Int)]

/-! ## Cutting -/

theorem scanFrom_add (offset k : Nat) (cs : List Char) :
    scanFrom (offset + k) cs =
      ⟨(scanFrom offset cs).placed.map (Placed.shift k),
        (scanFrom offset cs).stop.map fun (c, n) => (c, n + k)⟩ := by
  fun_induction scanFrom offset cs with
  | case1 =>
    rw [scanFrom]
    rfl
  | case2 offset c cs hblank ih => rw [scanFrom_blank hblank, Nat.add_right_comm, ih]
  | case3 offset c cs hblank hnone =>
    rw [scanFrom_stop (Bool.eq_false_iff.mpr hblank) hnone]
    rfl
  | case4 offset c cs hblank l rest hfirst tail ih =>
    obtain ⟨htext, proper, ends⟩ := Lexeme.first?_eq_some_iff.mp hfirst
    rw [htext, scanFrom_lexeme proper ends, Nat.add_right_comm, ih]
    rfl

theorem scanFrom_blanks {w : List Char} (h : ∀ c ∈ w, Text.isBlank c = true) (offset : Nat)
    (cs : List Char) : scanFrom offset (w ++ cs) = scanFrom (offset + w.length) cs := by
  induction w generalizing offset with
  | nil => rfl
  | cons c w ih =>
    have hrest := ih (fun d hd => h d (List.mem_cons_of_mem _ hd)) (offset + 1)
    rw [List.cons_append, scanFrom_blank (h c List.mem_cons_self), hrest, List.length_cons,
      Nat.add_right_comm, Nat.add_assoc]

section Cutting

variable {a w : String} {as : List Token}

theorem scan_append (ha : tokenize a = .ok as) (hw : IsRun Text.isBlank w) (b : String) :
    ∃ ps, as = ps.map Placed.token ∧ scan (a ++ w ++ b) =
      ⟨ps ++ (scan b).placed.map (Placed.shift (a.length + w.length)),
        (scan b).stop.map fun (c, n) => (c, n + (a.length + w.length))⟩ := by
  obtain ⟨ps, hcut, rfl⟩ := tokenize_eq_ok_iff_cut.mp ha
  obtain ⟨c, cs, hcs⟩ := List.exists_cons_of_ne_nil hw.1
  have hc : Text.isBlank c = true := hw.2 c (by simp [hcs])
  have hbehind : scanFrom (0 + a.toList.length) (c :: (cs ++ b.toList)) =
      scanFrom (0 + (a.length + w.length)) b.toList := by
    rw [← List.cons_append, ← hcs, scanFrom_blanks hw.2, String.length_toList,
      String.length_toList, Nat.add_assoc]
  refine ⟨ps, rfl, ?_⟩
  rw [scan, String.toList_append, String.toList_append, hcs, List.append_assoc, List.cons_append,
    hcut.scanFrom_append (fun l => l.endsBefore_blank hc _), hbehind, scanFrom_add]
  rfl

theorem tokenize_append_of_ok {b : String} {bs : List Token} (ha : tokenize a = .ok as)
    (hw : IsRun Text.isBlank w) (hb : tokenize b = .ok bs) :
    tokenize (a ++ w ++ b) = .ok (as ++ bs.map (Token.shift (a.length + w.length))) := by
  obtain ⟨ps, rfl, hscan⟩ := scan_append ha hw b
  obtain ⟨hstop, rfl⟩ := tokenize_eq_ok_iff.mp hb
  rw [tokenize_eq_ok_iff, hscan, hstop]
  refine ⟨rfl, ?_⟩
  have hshift : Placed.token ∘ Placed.shift (a.length + w.length) =
      Token.shift (a.length + w.length) ∘ Placed.token := funext (Placed.token_shift _)
  rw [List.map_append, List.map_map, List.map_map, hshift]

theorem tokenize_append_of_error {b : String} {f : LexFault} (ha : tokenize a = .ok as)
    (hw : IsRun Text.isBlank w) (hb : tokenize b = .error f) :
    tokenize (a ++ w ++ b) = .error (f.shift (a.length + w.length)) := by
  obtain ⟨ps, _, hscan⟩ := scan_append ha hw b
  obtain ⟨c, offset, hstop, rfl⟩ := tokenize_eq_error_iff.mp hb
  refine tokenize_eq_error_iff.mpr ⟨c, offset + (a.length + w.length), ?_, ?_⟩
  · rw [hscan, hstop]
    rfl
  · exact (LexFault.ofStop_shift _ c offset).symm

end Cutting

namespace Source

/-! ## Reading -/

namespace Reading

/-- The same reading with these expressions read before it. -/
def after (base : List Expr) (r : Reading) : Reading := { r with body := r.body ++ base }

theorem add_after (base : List Expr) (r : Reading) (e : Expr) :
    (r.after base).add e = (r.add e).after base := by
  obtain ⟨⟨body, calls⟩, due⟩ := r
  cases calls <;> rfl

theorem Takes.after_shift {rule : CalleeRule} {r s : Reading} {t : Token}
    (h : Takes rule r t s) (base : List Expr) (k : Nat) :
    Takes rule (r.after base) (t.shift k) (s.after base) := by
  cases h with
  | callee due accepted => exact .callee due accepted
  | opening due opens => exact .opening due opens
  | closing due closes inside =>
    rw [← add_after]
    exact .closing due closes inside
  | literal due spells =>
    rw [← add_after]
    exact .literal due spells

theorem Refuses.after_shift {rule : CalleeRule} {r : Reading} {t : Token} {f : Fault}
    (h : Refuses rule r t f) (base : List Expr) (k : Nat) :
    Refuses rule (r.after base) (t.shift k) (f.shift k) := by
  cases h with
  | callee due rejected => exact .callee due rejected
  | token due opens outside spells => exact .token due opens outside spells

end Reading

section Parsing

variable {rule : CalleeRule} {as bs : List Token} {p : Program}

theorem readAll_append_parsed (ha : parse rule as = .ok p) (us : List Token) :
    Reading.readAll rule {} (as ++ us) =
      (Reading.after p.body.reverse {}).readAll rule us := by
  obtain ⟨r, hread, hc, rfl⟩ := parse_eq_ok_iff.mp ha
  obtain ⟨due, outside⟩ := Reading.isComplete_iff.mp hc
  have hr : r = Reading.after r.body.reverse.reverse {} := by
    obtain ⟨⟨body, calls⟩, calleeDue⟩ := r
    cases due
    cases outside
    simp [Reading.after]
  rw [Reading.readAll_append_of_ok hread, ← hr]

theorem readAll_append_shift {s : Reading} (ha : parse rule as = .ok p)
    (hb : Reading.readAll rule {} bs = .ok s) (k : Nat) :
    Reading.readAll rule {} (as ++ bs.map (Token.shift k)) = .ok (s.after p.body.reverse) := by
  rw [readAll_append_parsed ha]
  exact Reading.readAll_ok_transport (fun _ _ _ h => h.after_shift p.body.reverse k) hb

theorem parse_append_of_ok {q : Program} (ha : parse rule as = .ok p)
    (hb : parse rule bs = .ok q) (k : Nat) :
    parse rule (as ++ bs.map (Token.shift k)) = .ok ⟨p.body ++ q.body⟩ := by
  obtain ⟨s, hread, hc, rfl⟩ := parse_eq_ok_iff.mp hb
  refine parse_eq_ok_iff.mpr ⟨_, readAll_append_shift ha hread k, hc, ?_⟩
  simp [Reading.after]

theorem parse_append_of_error {f : Fault} (ha : parse rule as = .ok p)
    (hb : parse rule bs = .error f) (k : Nat) :
    parse rule (as ++ bs.map (Token.shift k)) = .error (f.shift k) := by
  rcases parse_eq_error hb with hread | ⟨s, last, hread, hc, hlast, rfl⟩
  · refine parse_of_readAll_error ?_
    rw [readAll_append_parsed ha]
    exact Reading.readAll_error_transport (fun _ _ _ h => h.after_shift p.body.reverse k)
      (fun _ _ h => h.after_shift p.body.reverse k) hread
  · have hopen : (s.after p.body.reverse).isComplete = false := hc
    -- the last token of the second list is the last one of all
    have hend : Token.endOf (as ++ bs.map (Token.shift k)) = some (last.endOffset + k) := by
      rw [Token.endOf, List.getLast?_append, List.getLast?_map, hlast, ← last.endOffset_shift]
      rfl
    rw [parse_of_readAll_ok (readAll_append_shift ha hread k), hopen, hend]
    rfl

theorem exists_offset_of_parse_error {f : Fault} (h : parse rule as = .error f) :
    ∃ offset, f.offset = some offset := by
  rcases parse_eq_error h with hread | ⟨_, last, _, _, _, rfl⟩
  · obtain ⟨_, t, _, _, _, _, hf⟩ := Reading.readAll_eq_error hread
    cases hf with
    | callee | token => exact ⟨t.offset, rfl⟩
  · exact ⟨last.endOffset, rfl⟩

end Parsing

/-! ## Writing -/

theorem Program.written_append {p q : Program} (hp : p.body ≠ []) (hq : q.body ≠ []) :
    Program.written ⟨p.body ++ q.body⟩ = p.written ++ "\n" ++ q.written := by
  rw [Program.written, List.map_append,
    String.intercalate_append_of_ne_nil (by simpa using hp) (by simpa using hq)]
  rfl

end Source

/-! ## Compiling -/

/-- Both report the same, the second one at an offset that is greater by `k`. -/
def Failure.Shifted (k : Nat) (f g : Failure) : Prop :=
  ∃ d offset, f = .diagnostic d ∧ d.Raised ∧ d.offset = some offset ∧
    g = .diagnostic { d with offset := some (offset + k) }

theorem LexFault.failure_shift (k : Nat) (f : LexFault) :
    f.failure.Shifted k (f.shift k).failure := by
  cases f with
  | unexpectedCharacter char offset => exact ⟨_, offset, rfl, ⟨rfl, rfl, rfl⟩, rfl, rfl⟩
  | unterminatedString quote offset => exact ⟨_, offset, rfl, ⟨rfl, rfl, rfl⟩, rfl, rfl⟩

theorem Source.Fault.failure_shift (k : Nat) {f : Source.Fault} {offset : Int}
    (h : f.offset = some offset) : f.failure.Shifted k (f.shift k).failure := by
  cases f with
  | unexpectedToken t => exact ⟨_, t.offset, rfl, ⟨rfl, rfl, rfl⟩, rfl, rfl⟩
  | endOfInput offset' =>
    obtain rfl : offset' = some offset := h
    exact ⟨_, offset, rfl, ⟨rfl, rfl, rfl⟩, rfl, rfl⟩
  | invalidCallee t => exact ⟨_, t.offset, rfl, ⟨rfl, rfl, rfl⟩, rfl, rfl⟩

theorem Failure.Shifted.hinted {k : Nat} {f g : Failure} (h : f.Shifted k g)
    (source source' : String) :
    ∃ d offset hints, f.hinted source = .diagnostic d ∧ d.offset = some offset ∧
      g.hinted source' = .diagnostic { d with offset := some (offset + k), hints := hints } := by
  obtain ⟨d, offset, rfl, hraised, hoffset, rfl⟩ := h
  have hshifted : Diagnostic.Raised { d with offset := some (offset + k) } :=
    ⟨hraised.filled, hraised.texts, hraised.unhinted⟩
  exact ⟨d.advised source, offset, _, hinted_of_raised hraised source, hoffset,
    hinted_of_raised hshifted source'⟩

theorem compile_append_of_error {options : Options} {a w b : String} {as : List Token}
    {p : Source.Program} {failure : Failure} (hta : tokenize a = .ok as)
    (hpa : Source.parse options.calleeRule as = .ok p) (hw : IsRun Text.isBlank w)
    (hb : compile options b = .error failure) :
    ∃ f g : Failure, f.Shifted (a.length + w.length) g ∧ failure = f.hinted b ∧
      compile options (a ++ w ++ b) = .error (g.hinted (a ++ w ++ b)) := by
  cases htb : tokenize b with
  | error f =>
    rw [compile_of_tokenize_error htb] at hb
    exact ⟨f.failure, _, f.failure_shift _, (Except.error.inj hb).symm,
      compile_of_tokenize_error (tokenize_append_of_error hta hw htb) options⟩
  | ok bs =>
    cases hpb : Source.parse options.calleeRule bs with
    | ok q =>
      rw [compile_of_parse_ok htb hpb] at hb
      contradiction
    | error f =>
      rw [compile_of_parse_error htb hpb] at hb
      obtain ⟨offset, ho⟩ := Source.exists_offset_of_parse_error hpb
      exact ⟨f.failure, _, f.failure_shift _ ho, (Except.error.inj hb).symm,
        compile_of_parse_error (tokenize_append_of_ok hta hw htb)
          (Source.parse_append_of_error hpa hpb _)⟩

/-- A source behind another one and a blank is compiled as it is alone. The
outputs are joined by a newline unless one of the programs is empty. A fault in
the second source is reported at its place in the whole, and only the hints may
then differ. -/
theorem compile_append (options : Options) (a w b output : String)
    (ha : compile options a = .ok output) (hw : IsRun Text.isBlank w) :
    (∀ output', compile options b = .ok output' →
      ∃ as bs p q, tokenize a = .ok as ∧ Source.parse options.calleeRule as = .ok p ∧
        tokenize b = .ok bs ∧ Source.parse options.calleeRule bs = .ok q ∧
        (p.body ≠ [] → q.body ≠ [] →
          compile options (a ++ w ++ b) = .ok (output ++ "\n" ++ output')) ∧
        (p.body = [] → compile options (a ++ w ++ b) = .ok output') ∧
        (q.body = [] → compile options (a ++ w ++ b) = .ok output)) ∧
    (∀ failure, compile options b = .error failure →
      ∃ d offset hints, failure = .diagnostic d ∧ d.offset = some offset ∧
        compile options (a ++ w ++ b) = .error (.diagnostic
          { d with offset := some (offset + (a.length + w.length : Nat)), hints := hints })) := by
  obtain ⟨as, p, hta, hpa, rfl⟩ := compile_eq_ok ha
  constructor
  · intro output' hb
    obtain ⟨bs, q, htb, hpb, rfl⟩ := compile_eq_ok hb
    have hc := compile_of_parse_ok (tokenize_append_of_ok hta hw htb)
      (Source.parse_append_of_ok hpa hpb _)
    refine ⟨as, bs, p, q, hta, hpa, htb, hpb, fun hp hq => ?_, fun hp => ?_, fun hq => ?_⟩
    · rw [hc, Source.Program.written_append hp hq]
    · rw [hc, hp, List.nil_append]
    · rw [hc, hq, List.append_nil]
  · intro failure hb
    obtain ⟨f, g, hshift, rfl, hc⟩ := compile_append_of_error hta hpa hw hb
    obtain ⟨d, offset, hints, hd, hoffset, hd'⟩ := hshift.hinted b (a ++ w ++ b)
    exact ⟨d, offset, hints, hd, hoffset, hc.trans (congrArg Except.error hd')⟩

/-- The second parenthesis is the callee of the first, so the first source ends
outside of any call; the second source ends within one. -/
theorem compile_append_open_call :
    let options : Options := { anyCallee := true }
    compile options "((1)" = .ok "((1);" ∧ IsRun Text.isBlank "\n" ∧
      ∃ d offset hints, compile options "'x' (f" = .error (.diagnostic d) ∧
        d.offset = some offset ∧
        compile options ("((1)" ++ "\n" ++ "'x' (f") = .error (.diagnostic
          { d with offset := some (offset + 5), hints := hints }) := by
  intro options
  have hta : tokenize "((1)" = .ok [⟨.paren, "(", 0⟩, ⟨.paren, "(", 1⟩, ⟨.number, "1", 2⟩,
      ⟨.paren, ")", 3⟩] := by decide +kernel
  have htb : tokenize "'x' (f" = .ok [⟨.string, "x", 0⟩, ⟨.paren, "(", 4⟩, ⟨.name, "f", 5⟩] := by
    decide +kernel
  have hout : Source.Program.written ⟨[.call "(" [.literal ⟨.number, "1"⟩]]⟩ = "((1);" := by
    decide +kernel
  have ha : compile options "((1)" = .ok "((1);" :=
    hout ▸ compile_of_parse_ok hta (Source.parse_of_outcome rfl)
  have hblank : Text.isBlank '\n' = true := by decide
  have hw : IsRun Text.isBlank "\n" := ⟨by simp, by simpa using hblank⟩
  have hb : compile options "'x' (f" =
      .error ((Source.Fault.endOfInput (some 6)).failure.hinted "'x' (f") :=
    compile_of_parse_error htb (Source.parse_of_outcome rfl)
  obtain ⟨d, offset, hints, hd, hoffset, hc⟩ :=
    (compile_append options "((1)" "\n" "'x' (f" _ ha hw).2 _ hb
  exact ⟨ha, hw, d, offset, hints, hd ▸ hb, hoffset, hc⟩

end ParenCall
