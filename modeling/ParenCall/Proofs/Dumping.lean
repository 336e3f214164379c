import ParenCall.Shape.Model

/-! # Dumped data checks as what it was dumped from

A dump has every field of its record under its own name, so each check finds what
it looks for and none of the defaults is used. Inside of lists the field `type`
picks the shape, and it is always there in a dump. Checking therefore undoes
dumping for every model, whatever data the dumped thing came from.

Neither goes on for ever. Calls that stand too deep inside one another are not
dumped, and none come out of a check. Schemas are put together from lists, records
and calls, and each of these keeps what holds of its parts, so that it is said once
for both languages. -/

namespace ParenCall

/-! ## Checks that succeed -/

namespace Checked

variable {α β γ : Type}

@[simp]
theorem under_ok (step : Step) (a : α) : under step (.ok a : Checked α) = .ok a := rfl

@[simp]
theorem both_ok (f : α → β → γ) (a : α) (b : β) : both f (.ok a) (.ok b) = .ok (f a b) := rfl

theorem eq_ok_of_under {step : Step} {c : Checked α} {a : α} (h : under step c = .ok a) :
    c = .ok a := by
  cases c with
  | ok b => exact h
  | error issues => cases h

theorem exists_of_both {f : α → β → γ} {x : Checked α} {y : Checked β} {c : γ}
    (h : both f x y = .ok c) : ∃ a b, x = .ok a ∧ y = .ok b ∧ c = f a b := by
  cases x with
  | error issues => cases y <;> cases h
  | ok a =>
    cases y with
    | error issues => cases h
    | ok b => exact ⟨a, b, rfl, rfl, (Except.ok.inj h).symm⟩

theorem exists_of_each {check : Value → Checked α} {i : Nat} {items : List Value} {as : List α}
    (h : each check i items = .ok as) : ∀ a ∈ as, ∃ item, check item = .ok a := by
  induction items generalizing i as with
  | nil =>
    cases h
    intro a ha
    cases ha
  | cons item items ih =>
    obtain ⟨first, others, hfirst, hothers, rfl⟩ := exists_of_both h
    intro a ha
    cases ha with
    | head => exact ⟨item, eq_ok_of_under hfirst⟩
    | tail _ ha => exact ih hothers a ha

end Checked

namespace Shape

open Checked

variable {α : Type}

theorem field_of_lookup {name : String} {ifAbsent : Checked α} {check : Value → Checked α}
    {fields : Fields} {v : Value} {a : α} (hv : fields.lookup name = some v)
    (hc : check v = .ok a) : field name ifAbsent check fields = .ok a := by
  unfold field
  rw [hv]
  dsimp only
  rw [hc, under_ok]

theorem field_cons (name : String) (ifAbsent : Checked α) (check : Value → Checked α)
    (key : String) (v : Value) (fields : Fields) :
    field name ifAbsent check ((key, v) :: fields) =
      if key = name then under (.field name) (check v)
      else field name ifAbsent check fields := by
  unfold field
  by_cases h : key = name
  · subst h
    rw [if_pos rfl, List.lookup_cons_self]
  · have hne : (name == key) = false := beq_false_of_ne (Ne.symm h)
    rw [if_neg h, List.lookup_cons, hne]

theorem exists_of_field {name : String} {ifAbsent : Checked α} {check : Value → Checked α}
    {fields : Fields} {a : α} (h : field name ifAbsent check fields = .ok a) :
    ifAbsent = .ok a ∨ ∃ v, check v = .ok a := by
  have h := eq_ok_of_under h
  split at h
  · exact .inr ⟨_, h⟩
  · exact .inl h

theorem constant_of_label {ofLabel? : String → Option α} {label : String} {a : α}
    (h : ofLabel? label = some a) : constant ofLabel? (.text label) = .ok a := by
  unfold constant
  dsimp only
  rw [h]

theorem exists_of_listOf {check : Value → Checked α} {v : Value} {as : List α}
    (h : listOf check v = .ok as) : ∀ a ∈ as, ∃ item, check item = .ok a := by
  cases v with
  | list items => exact exists_of_each h
  | _ => cases h

theorem exists_of_record {check : Fields → Checked α} {v : Value} {a : α}
    (h : record check v = .ok a) : ∃ fields, v = .object fields ∧ check fields = .ok a := by
  cases v with
  | object fields => exact ⟨fields, rfl, h⟩
  | _ => cases h

/-! ## Nodes -/

theorem typeField_node (label : String) (fields : Fields) :
    typeField label (("type", .text label) :: fields) = .ok () := by
  unfold typeField optional
  apply field_of_lookup List.lookup_cons_self
  exact constant_of_label (if_pos rfl)

theorem tag_node {ofLabel? : String → Option α} {label : String} {a : α}
    (h : ofLabel? label = some a) (fields : Fields) :
    tag ofLabel? (("type", .text label) :: fields) = .ok a := by
  unfold tag
  rw [List.lookup_cons_self]
  dsimp only
  rw [h]

theorem literalValue_node (kind : Literal.Kind) (value : String) :
    literalValue kind [("type", .text kind.label), ("value", .text value)] = .ok value := by
  have hvalue : required "value" text [("type", .text kind.label), ("value", .text value)] =
      .ok value := field_of_lookup rfl rfl
  rw [literalValue, typeField_node, hvalue, both_ok]

theorem literal_node (l : Literal) :
    literal l.kind [("type", .text l.kind.label), ("value", .text l.value)] = .ok l := by
  rw [literal, literalValue_node]
  rfl

theorem identifier_node (i : ParenCall.Target.Identifier) :
    Target.identifier [("type", .text "Identifier"), ("name", .text i.name)] = .ok i := by
  have hname : required "name" text [("type", .text "Identifier"), ("name", .text i.name)] =
      .ok i.name := field_of_lookup rfl rfl
  rw [Target.identifier, typeField_node, hname, both_ok]

end Shape

/-! ## Round trips -/

/-- How deep the deepest of several things goes. -/
def deepest {α : Type} (nesting : α → Nat) (xs : List α) : Nat := (xs.map nesting).foldr max 0

theorem deepest_cons {α : Type} (nesting : α → Nat) (x : α) (xs : List α) :
    deepest nesting (x :: xs) = max (nesting x) (deepest nesting xs) := rfl

theorem deepest_singleton {α : Type} (nesting : α → Nat) (x : α) :
    deepest nesting [x] = nesting x :=
  Nat.max_eq_left (Nat.zero_le (nesting x))

theorem deepest_le {α : Type} {nesting : α → Nat} {room : Nat} {xs : List α}
    (h : ∀ x ∈ xs, nesting x ≤ room) : deepest nesting xs ≤ room := by
  induction xs with
  | nil => exact Nat.zero_le room
  | cons x xs ih =>
    have hx := h x List.mem_cons_self
    have hxs := ih fun y hy => h y (List.mem_cons_of_mem x hy)
    rw [deepest_cons]
    omega

/-- Where there is room for it, a thing is dumped, and its dump checks as the
thing. Where there is not, it is neither dumped nor is there data that checks as
it. -/
structure RoundTrips {α : Type} (check : Value → Checked α) (dump : α → Dumped)
    (nesting : α → Nat) (room : Nat) : Prop where
  check_of_dump : ∀ {x v}, dump x = .ok v → check v = .ok x
  exists_dump : ∀ {x}, nesting x ≤ room → ∃ v, dump x = .ok v
  tooDeep : ∀ {x}, room < nesting x → dump x = .error .tooDeep
  nesting_le : ∀ {v x}, check v = .ok x → nesting x ≤ room

namespace RoundTrips

open Checked Shape

variable {α β : Type} {check : Value → Checked α} {dump : α → Dumped} {nesting : α → Nat}
  {room : Nat}

/-- What holds no calls is dumped in any case. -/
theorem of_flat {dump : α → Value} (h : ∀ x, check (dump x) = .ok x) :
    RoundTrips check (fun x => .ok (dump x)) (fun _ => 0) room where
  check_of_dump := by
    rintro x v ⟨⟩
    exact h x
  exists_dump _ := ⟨_, rfl⟩
  tooDeep hdeep := absurd hdeep (Nat.not_lt_zero _)
  nesting_le _ := Nat.zero_le _

section Lists

theorem mapM_cons_eq (f : α → Dumped) (x : α) (xs : List α) :
    (x :: xs).mapM f = (f x).bind fun v => (xs.mapM f).bind fun vs => .ok (v :: vs) := by
  rw [List.mapM_cons]
  rfl

theorem exists_of_mapM_cons {f : α → Dumped} {x : α} {xs : List α} {vs : List Value}
    (h : (x :: xs).mapM f = .ok vs) : ∃ v ws, f x = .ok v ∧ xs.mapM f = .ok ws ∧ vs = v :: ws := by
  rw [mapM_cons_eq] at h
  cases hx : f x with
  | error e =>
    rw [hx] at h
    cases h
  | ok v =>
    cases hxs : xs.mapM f with
    | error e =>
      rw [hx, hxs] at h
      cases h
    | ok ws =>
      rw [hx, hxs] at h
      exact ⟨v, ws, rfl, rfl, (Except.ok.inj h).symm⟩

theorem each_of_mapM (h : RoundTrips check dump nesting room) {xs : List α} {vs : List Value}
    (hdump : xs.mapM dump = .ok vs) (i : Nat) : each check i vs = .ok xs := by
  induction xs generalizing vs i with
  | nil =>
    cases hdump
    rfl
  | cons x xs ih =>
    obtain ⟨v, ws, hx, hxs, rfl⟩ := exists_of_mapM_cons hdump
    rw [each, h.check_of_dump hx, ih hxs, under_ok, both_ok]

theorem exists_mapM (h : RoundTrips check dump nesting room) {xs : List α}
    (hroom : deepest nesting xs ≤ room) : ∃ vs, xs.mapM dump = .ok vs := by
  induction xs with
  | nil => exact ⟨[], rfl⟩
  | cons x xs ih =>
    rw [deepest_cons] at hroom
    obtain ⟨v, hv⟩ := @exists_dump _ _ _ _ _ h x (by omega)
    obtain ⟨vs, hvs⟩ := ih (by omega)
    exact ⟨v :: vs, by rw [mapM_cons_eq, hv, hvs]; rfl⟩

theorem mapM_tooDeep (h : RoundTrips check dump nesting room) {xs : List α}
    (hdeep : room < deepest nesting xs) : xs.mapM dump = .error .tooDeep := by
  induction xs with
  | nil => exact absurd hdeep (Nat.not_lt_zero room)
  | cons x xs ih =>
    rw [deepest_cons] at hdeep
    rw [mapM_cons_eq]
    by_cases hx : nesting x ≤ room
    · obtain ⟨v, hv⟩ := h.exists_dump hx
      rw [hv, ih (by omega)]
      rfl
    · rw [h.tooDeep (by omega)]
      rfl

theorem deepest_le_of_check (h : RoundTrips check dump nesting room) {xs : List α}
    (hxs : ∀ x ∈ xs, ∃ v, check v = .ok x) : deepest nesting xs ≤ room := by
  refine deepest_le fun x hx => ?_
  obtain ⟨v, hv⟩ := hxs x hx
  exact h.nesting_le hv

theorem listOf (h : RoundTrips check dump nesting room) :
    RoundTrips (Shape.listOf check) (fun xs => (xs.mapM dump).map .list) (deepest nesting)
      room where
  check_of_dump hdump := by
    obtain ⟨vs, hvs, rfl⟩ := exists_of_map hdump
    exact h.each_of_mapM hvs 0
  exists_dump hroom := by
    obtain ⟨vs, hvs⟩ := h.exists_mapM hroom
    exact ⟨.list vs, by rw [hvs]; rfl⟩
  tooDeep hdeep := by
    rw [h.mapM_tooDeep hdeep]
    rfl
  nesting_le hcheck := h.deepest_le_of_check (exists_of_listOf hcheck)

end Lists

/-- A record whose one field besides its name holds what can be deep. The field
may only be left out for something that is not too deep either. -/
theorem ofField (h : RoundTrips check dump nesting room) (label : String) {name : String}
    (hname : "type" ≠ name) {ifAbsent : Checked α}
    (habsent : ∀ {x}, ifAbsent = .ok x → nesting x ≤ room) (make : α → β) (part : β → α)
    (hpart : ∀ x, part (make x) = x) (hmake : ∀ y, make (part y) = y) :
    RoundTrips
      (record fun fields =>
        both (fun _ x => make x) (typeField label fields) (field name ifAbsent check fields))
      (fun y => (dump (part y)).map fun v => node label [(name, v)])
      (fun y => nesting (part y)) room where
  check_of_dump := by
    intro y v hdump
    obtain ⟨inner, hinner, rfl⟩ := exists_of_map hdump
    have hfield : field name ifAbsent check [("type", .text label), (name, inner)] =
        .ok (part y) := by
      rw [field_cons, if_neg hname]
      exact field_of_lookup List.lookup_cons_self (h.check_of_dump hinner)
    rw [node, record, typeField_node, hfield, both_ok, hmake]
  exists_dump hroom := by
    obtain ⟨v, hv⟩ := h.exists_dump hroom
    exact ⟨_, by rw [hv]; rfl⟩
  tooDeep hdeep := by
    rw [h.tooDeep hdeep]
    rfl
  nesting_le := by
    intro v y hcheck
    obtain ⟨fields, _, hfields⟩ := exists_of_record hcheck
    obtain ⟨_, x, _, hx, rfl⟩ := exists_of_both hfields
    rw [hpart]
    cases exists_of_field hx with
    | inl hdefault => exact habsent hdefault
    | inr hv =>
      obtain ⟨v, hv⟩ := hv
      exact h.nesting_le hv

theorem body (h : RoundTrips check dump nesting room) (make : List α → β) (part : β → List α)
    (hpart : ∀ xs, part (make xs) = xs) (hmake : ∀ y, make (part y) = y) :
    RoundTrips
      (record fun fields =>
        both (fun _ xs => make xs) (typeField "Program" fields)
          (optional "body" [] (Shape.listOf check) fields))
      (fun y => ((part y).mapM dump).map fun vs => node "Program" [("body", .list vs)])
      (fun y => deepest nesting (part y)) room := by
  have hempty : ∀ {xs : List α}, (.ok [] : Checked (List α)) = .ok xs →
      deepest nesting xs ≤ room := by
    rintro _ ⟨⟩
    exact Nat.zero_le room
  have hrecord := h.listOf.ofField "Program" (by decide : "type" ≠ "body") hempty make part hpart
    hmake
  have hdump (y : β) : (((part y).mapM dump).map Value.list).map
        (fun v => node "Program" [("body", v)]) =
      ((part y).mapM dump).map fun vs => node "Program" [("body", .list vs)] := by
    cases (part y).mapM dump <;> rfl
  simp only [hdump] at hrecord
  exact hrecord

end RoundTrips

/-! ## Expressions -/

namespace Shape.Dialect

open Checked

variable {η α : Type} {s : Dialect η α} {dump : α → Nat → Dumped} {nesting : α → Nat}

/-- A dialect that has its literals and calls and nothing else, with the dump and
the depth of each. -/
structure Lawful (s : Dialect η α) (dump : α → Nat → Dumped) (nesting : α → Nat) : Prop where
  eq_literal_or_call : ∀ e, (∃ l, e = s.literal l) ∨ ∃ head parts, e = s.call head parts
  dump_literal : ∀ l room, dump (s.literal l) room = .ok l.dump
  dump_call : ∀ head parts, dump (s.call head parts) = s.dumpCall head (parts.map dump)
  nesting_literal : ∀ l, nesting (s.literal l) = 0
  nesting_call : ∀ head parts, nesting (s.call head parts) = deepest nesting parts + 1
  head_of_dump : ∀ head, s.checkHead (s.dumpHead head) = .ok head
  headField_ne : "type" ≠ s.headField
  partsField_ne : "type" ≠ s.partsField
  fields_ne : s.headField ≠ s.partsField

theorem exprList_eq_listOf (room : Nat) : s.exprList room = listOf (s.expr room) := by
  have hexprs (i : Nat) (items : List Value) :
      s.exprs room i items = each (s.expr room) i items := by
    induction items generalizing i with
    | nil => rw [exprs, each]
    | cons item items ih => rw [exprs, each, ih]
  funext v
  cases v with
  | list items => rw [exprList, hexprs, listOf]
  | _ => rfl

/-- Looking for the parts by recursion over the fields is looking them up. -/
theorem parts_eq_optional (room : Nat) (fields : Fields) :
    s.parts room fields = optional s.partsField [] (listOf (s.expr room)) fields := by
  unfold optional
  induction fields with
  | nil => rw [parts, field, List.lookup_nil, under_ok]
  | cons f fields ih =>
    rw [parts, field_cons, ih, exprList_eq_listOf]
    split
    · rename_i hname
      rw [hname]
    · rfl

theorem expr_object (room : Nat) (fields : Fields) :
    s.expr room (.object fields) =
      match tag ExprTag.ofLabel? fields with
      | .error issues => .error issues
      | .ok (.literal kind) => (Shape.literal kind fields).map s.literal
      | .ok .call =>
        under (.field "CallExpression") <|
          match room with
          | 0 => issue .tooDeep
          | below + 1 => both s.call (s.head fields) (s.parts below fields) := by
  cases room with
  | zero => rfl
  | succ below => rfl

theorem expr_literal (room : Nat) (l : Literal) : s.expr room l.dump = .ok (s.literal l) := by
  have htag : tag ExprTag.ofLabel? [("type", .text l.kind.label), ("value", .text l.value)] =
      .ok (.literal l.kind) := tag_node (ExprTag.ofLabel?_label (.literal l.kind)) _
  rw [Literal.dump, Shape.node, expr_object, htag]
  dsimp only
  rw [literal_node]
  rfl

/-- The fields of a call, put together in one way or another. -/
def fieldsOf {γ : Type} (s : Dialect η α) (make : η → List α → γ) (room : Nat) (fields : Fields) :
    Checked γ :=
  both make (s.head fields) (s.parts room fields)

theorem expr_of_call {room : Nat} {fields : Fields} {e : α}
    (h : s.fieldsOf s.call room (("type", .text "CallExpression") :: fields) = .ok e) :
    s.expr (room + 1) (.object (("type", .text "CallExpression") :: fields)) = .ok e := by
  have htag : tag ExprTag.ofLabel? (("type", .text "CallExpression") :: fields) = .ok .call :=
    tag_node (ExprTag.ofLabel?_label .call) fields
  rw [expr_object, htag]
  dsimp only
  rw [fieldsOf] at h
  rw [h, under_ok]

theorem exists_of_expr {room : Nat} {v : Value} {e : α} (h : s.expr room v = .ok e) :
    (∃ l, e = s.literal l) ∨ ∃ below fields, room = below + 1 ∧
      s.fieldsOf s.call below fields = .ok e := by
  cases v with
  | object fields =>
    rw [expr_object] at h
    split at h
    · cases h
    · obtain ⟨l, _, rfl⟩ := exists_of_map h
      exact .inl ⟨l, rfl⟩
    · have h := eq_ok_of_under h
      cases room with
      | zero => cases h
      | succ below => exact .inr ⟨below, fields, rfl, h⟩
  | _ => cases h

theorem exists_of_fieldsOf {γ : Type} {make : η → List α → γ} {room : Nat} {fields : Fields}
    {x : γ} (h : s.fieldsOf make room fields = .ok x) :
    ∃ head parts, x = make head parts ∧ ∀ e ∈ parts, ∃ v, s.expr room v = .ok e := by
  obtain ⟨head, parts, _, hparts, rfl⟩ := exists_of_both h
  refine ⟨head, parts, rfl, ?_⟩
  rw [parts_eq_optional] at hparts
  cases exists_of_field hparts with
  | inl hnone =>
    cases hnone
    intro e he
    cases he
  | inr hlist =>
    obtain ⟨v, hv⟩ := hlist
    exact exists_of_listOf hv

namespace Lawful

variable (h : s.Lawful dump nesting)
include h

theorem dump_call_succ (room : Nat) (head : η) (parts : List α) :
    dump (s.call head parts) (room + 1) =
      (parts.mapM fun e => dump e room).map (s.node head) := by
  rw [h.dump_call, dumpCall, List.mapM_map]
  rfl

theorem fieldsOf_node {γ : Type} (make : η → List α → γ) {room : Nat} (head : η)
    {parts : List α} {vs : List Value} (hvs : each (s.expr room) 0 vs = .ok parts) :
    s.fieldsOf make room [("type", .text "CallExpression"), (s.headField, s.dumpHead head),
      (s.partsField, .list vs)] = .ok (make head parts) := by
  have hhead : required s.headField s.checkHead [("type", .text "CallExpression"),
      (s.headField, s.dumpHead head), (s.partsField, .list vs)] = .ok head := by
    rw [required, field_cons, if_neg h.headField_ne]
    exact field_of_lookup List.lookup_cons_self (h.head_of_dump head)
  have hparts : optional s.partsField [] (listOf (s.expr room)) [("type", .text "CallExpression"),
      (s.headField, s.dumpHead head), (s.partsField, .list vs)] = .ok parts := by
    rw [optional, field_cons, if_neg h.partsField_ne, field_cons, if_neg h.fields_ne]
    exact field_of_lookup List.lookup_cons_self hvs
  rw [fieldsOf, Dialect.head, typeField_node, hhead, parts_eq_optional, hparts, both_ok, both_ok]

theorem call_of_dump {γ : Type} (make : η → List α → γ) {room : Nat}
    (hbelow : RoundTrips (s.expr room) (fun e => dump e room) nesting room) {head : η}
    {parts : List α} {v : Value} (hv : dump (s.call head parts) (room + 1) = .ok v) :
    ∃ fields, v = .object (("type", .text "CallExpression") :: fields) ∧
      s.fieldsOf make room (("type", .text "CallExpression") :: fields) =
        .ok (make head parts) := by
  rw [h.dump_call_succ] at hv
  obtain ⟨vs, hvs, rfl⟩ := exists_of_map hv
  exact ⟨_, rfl, h.fieldsOf_node make head (hbelow.each_of_mapM hvs 0)⟩

/-- An expression is dumped and checked as its parts are with one room less. -/
theorem roundTrips_of_below {room : Nat}
    (hbelow : ∀ {below}, room = below + 1 →
      RoundTrips (s.expr below) (fun e => dump e below) nesting below) :
    RoundTrips (s.expr room) (fun e => dump e room) nesting room where
  check_of_dump := by
    intro e v hv
    rcases h.eq_literal_or_call e with ⟨l, rfl⟩ | ⟨head, parts, rfl⟩
    · obtain rfl := Except.ok.inj ((h.dump_literal l room).symm.trans hv)
      exact expr_literal room l
    · cases room with
      | zero =>
        rw [h.dump_call] at hv
        cases hv
      | succ room =>
        obtain ⟨fields, rfl, hfields⟩ := h.call_of_dump s.call (hbelow rfl) hv
        exact expr_of_call hfields
  exists_dump := by
    intro e hroom
    rcases h.eq_literal_or_call e with ⟨l, rfl⟩ | ⟨head, parts, rfl⟩
    · exact ⟨_, h.dump_literal l room⟩
    · rw [h.nesting_call] at hroom
      cases room with
      | zero => cases hroom
      | succ room =>
        obtain ⟨vs, hvs⟩ := (hbelow rfl).exists_mapM (Nat.le_of_succ_le_succ hroom)
        exact ⟨_, by rw [h.dump_call_succ, hvs]; rfl⟩
  tooDeep := by
    intro e hdeep
    rcases h.eq_literal_or_call e with ⟨l, rfl⟩ | ⟨head, parts, rfl⟩
    · rw [h.nesting_literal] at hdeep
      cases hdeep
    · rw [h.nesting_call] at hdeep
      cases room with
      | zero =>
        rw [h.dump_call]
        rfl
      | succ room =>
        rw [h.dump_call_succ, (hbelow rfl).mapM_tooDeep (Nat.lt_of_succ_lt_succ hdeep)]
        rfl
  nesting_le := by
    intro v e hcheck
    rcases exists_of_expr hcheck with ⟨l, rfl⟩ | ⟨below, fields, rfl, hfields⟩
    · rw [h.nesting_literal]
      exact Nat.zero_le room
    · obtain ⟨head, parts, rfl, hparts⟩ := exists_of_fieldsOf hfields
      rw [h.nesting_call]
      exact Nat.succ_le_succ ((hbelow rfl).deepest_le_of_check hparts)

theorem roundTrips_expr (room : Nat) :
    RoundTrips (s.expr room) (fun e => dump e room) nesting room := by
  induction room with
  | zero => exact h.roundTrips_of_below nofun
  | succ room ih =>
    refine h.roundTrips_of_below ?_
    rintro _ ⟨⟩
    exact ih

/-- A call that is a record by itself has all the room for its parts. -/
theorem roundTrips_call {γ : Type} {make : η → List α → γ} {head : γ → η} {parts : γ → List α}
    (hmake : ∀ c, make (head c) (parts c) = c) (hparts : ∀ h ps, parts (make h ps) = ps)
    (room : Nat) :
    RoundTrips (record (s.fieldsOf make room)) (fun c => dump (s.call (head c) (parts c)) (room + 1))
      (fun c => deepest nesting (parts c)) room where
  check_of_dump := by
    intro c v hv
    obtain ⟨fields, rfl, hfields⟩ := h.call_of_dump make (h.roundTrips_expr room) hv
    rw [record, hfields, hmake]
  exists_dump := by
    intro c hroom
    obtain ⟨vs, hvs⟩ := (h.roundTrips_expr room).exists_mapM hroom
    exact ⟨_, by rw [h.dump_call_succ, hvs]; rfl⟩
  tooDeep := by
    intro c hdeep
    rw [h.dump_call_succ, (h.roundTrips_expr room).mapM_tooDeep hdeep]
    rfl
  nesting_le := by
    intro v c hcheck
    obtain ⟨fields, _, hfields⟩ := exists_of_record hcheck
    obtain ⟨head, ps, rfl, hps⟩ := exists_of_fieldsOf hfields
    rw [hparts]
    exact (h.roundTrips_expr room).deepest_le_of_check hps

end Lawful

end Shape.Dialect

/-! ## The two languages -/

namespace Source

/-- How many calls stand inside one another. -/
def Expr.nesting : Expr → Nat := Expr.fold (fun _ => 0) fun _ params => params.foldr max 0 + 1

theorem lawful_dialect : Shape.Source.dialect.Lawful Expr.dump Expr.nesting where
  eq_literal_or_call
    | .literal l => .inl ⟨l, rfl⟩
    | .call name params => .inr ⟨name, params, rfl⟩
  dump_literal _ _ := rfl
  dump_call name params := Expr.fold_call _ _ name params
  nesting_literal _ := rfl
  nesting_call name params := Expr.fold_call _ _ name params
  head_of_dump _ := rfl
  headField_ne := by decide
  partsField_ne := by decide
  fields_ne := by decide

/-- So many calls, each the one parameter of the next. -/
def Expr.nested : Nat → Expr
  | 0 => .literal ⟨.number, "1"⟩
  | n + 1 => .call "f" [Expr.nested n]

theorem Expr.nesting_nested (n : Nat) : (Expr.nested n).nesting = n := by
  induction n with
  | zero => rfl
  | succ n ih =>
    have hparams : deepest Expr.nesting [Expr.nested n] = n := by
      rw [deepest_singleton, ih]
    exact (lawful_dialect.nesting_call "f" _).trans (congrArg (· + 1) hparams)

end Source

namespace Target

def Expr.nesting : Expr → Nat :=
  Expr.fold (fun _ => 0) fun _ arguments => arguments.foldr max 0 + 1

theorem lawful_dialect : Shape.Target.dialect.Lawful Expr.dump Expr.nesting where
  eq_literal_or_call
    | .literal l => .inl ⟨l, rfl⟩
    | .call callee arguments => .inr ⟨callee, arguments, rfl⟩
  dump_literal _ _ := rfl
  dump_call callee arguments := Expr.fold_call _ _ callee arguments
  nesting_literal _ := rfl
  nesting_call callee arguments := Expr.fold_call _ _ callee arguments
  head_of_dump := Shape.identifier_node
  headField_ne := by decide
  partsField_ne := by decide
  fields_ne := by decide

def Statement.nesting : Statement → Nat
  | .expression e => e.nesting
  | .literal _ => 0

open Shape Shape.Target

theorem roundTrips_wrapped :
    RoundTrips (record wrapped) wrappedDump Expr.nesting maxNesting := by
  refine (lawful_dialect.roundTrips_expr maxNesting).ofField "ExpressionStatement" (by decide) ?_
    id id (fun _ => rfl) (fun _ => rfl)
  intro e habsent
  cases habsent

theorem roundTrips_statement :
    RoundTrips statement Statement.dump Statement.nesting maxNesting where
  check_of_dump := by
    intro x v hv
    cases x with
    | literal l =>
      cases hv
      have htag : tag StatementTag.ofLabel?
          [("type", .text l.kind.label), ("value", .text l.value)] = .ok (.literal l.kind) :=
        tag_node (StatementTag.ofLabel?_label (.literal l.kind)) _
      rw [Literal.dump, node, statement, htag]
      dsimp only
      rw [literal_node]
      rfl
    | expression e =>
      have hwrapped := roundTrips_wrapped.check_of_dump hv
      obtain ⟨inner, _, rfl⟩ := exists_of_map hv
      have htag : tag StatementTag.ofLabel?
          [("type", .text "ExpressionStatement"), ("expression", inner)] = .ok .expression :=
        tag_node (StatementTag.ofLabel?_label .expression) _
      rw [node, record] at hwrapped
      rw [node, statement, htag]
      dsimp only
      rw [hwrapped]
      rfl
  exists_dump := by
    intro x hroom
    cases x with
    | literal l => exact ⟨_, rfl⟩
    | expression e => exact roundTrips_wrapped.exists_dump hroom
  tooDeep := by
    intro x hdeep
    cases x with
    | literal l => cases hdeep
    | expression e => exact roundTrips_wrapped.tooDeep hdeep
  nesting_le := by
    intro v x hcheck
    cases v with
    | object fields =>
      rw [statement] at hcheck
      split at hcheck
      · cases hcheck
      · obtain ⟨l, _, rfl⟩ := exists_of_map hcheck
        exact Nat.zero_le _
      · obtain ⟨e, he, rfl⟩ := exists_of_map (Checked.eq_ok_of_under hcheck)
        exact @RoundTrips.nesting_le _ _ _ _ _ roundTrips_wrapped (.object fields) e he
    | _ => cases hcheck

end Target

/-! ## Tokens and options -/

namespace Shape

open Checked

theorem token_dump (t : Token) : record token t.dump = .ok t := by
  rw [Token.dump, record]
  let fields : Fields :=
    [("kind", .text t.kind.label), ("text", .text t.text), ("offset", .int t.offset)]
  have hkind : required "kind" (constant Token.Kind.ofLabel?) fields = .ok t.kind :=
    field_of_lookup rfl (constant_of_label t.kind.ofLabel?_label)
  have htext : required "text" text fields = .ok t.text := field_of_lookup rfl rfl
  have hoffset : optional "offset" 0 int fields = .ok t.offset := field_of_lookup rfl rfl
  rw [token, hkind, htext, hoffset, both_ok, both_ok]

theorem options_dump (o : Options) : record options o.dump = .ok o := by
  rw [Options.dump, record]
  let fields : Fields := [("verbose", .bool o.verbose), ("allow_any_callee", .bool o.anyCallee)]
  have hverbose : optional "verbose" false flag fields = .ok o.verbose := field_of_lookup rfl rfl
  have hcallee : optional "allow_any_callee" false flag fields = .ok o.anyCallee :=
    field_of_lookup rfl rfl
  rw [options, hverbose, hcallee, both_ok]

end Shape

/-! ## Models -/

namespace Model

/-- How many calls stand inside one another below the record. -/
def nesting : (m : Model) → m.Carrier → Nat
  | .token, _ | .options, _ | .literal _ _, _ | .identifier, _ => 0
  | .sourceCall, c => deepest Source.Expr.nesting c.params
  | .sourceProgram, p => deepest Source.Expr.nesting p.body
  | .targetCall, c => deepest Target.Expr.nesting c.arguments
  | .statement, e => Target.Expr.nesting e
  | .targetProgram, p => deepest Target.Statement.nesting p.body

theorem roundTrips (m : Model) : RoundTrips m.check m.dump m.nesting Shape.maxNesting := by
  cases m with
  | token => exact .of_flat Shape.token_dump
  | options => exact .of_flat Shape.options_dump
  | literal language kind => exact .of_flat (Shape.literalValue_node kind)
  | sourceCall => exact Source.lawful_dialect.roundTrips_call (fun _ => rfl) (fun _ _ => rfl) _
  | sourceProgram =>
    have hitem := Source.lawful_dialect.roundTrips_expr Shape.maxNesting
    have hbody := hitem.body Source.Program.mk Source.Program.body (fun _ => rfl) (fun _ => rfl)
    rw [← Shape.Dialect.exprList_eq_listOf] at hbody
    exact hbody
  | identifier => exact .of_flat Shape.identifier_node
  | targetCall => exact Target.lawful_dialect.roundTrips_call (fun _ => rfl) (fun _ _ => rfl) _
  | statement => exact Target.roundTrips_wrapped
  | targetProgram =>
    exact Target.roundTrips_statement.body Target.Program.mk Target.Program.body (fun _ => rfl)
      (fun _ => rfl)

theorem exists_check_of_normalize {m : Model} {v w : Value} (h : m.normalize v = .ok w) :
    ∃ x, m.check v = .ok x ∧ m.dump x = .ok w := by
  unfold normalize at h
  cases hx : m.check v with
  | error issues =>
    rw [hx] at h
    cases h
  | ok x =>
    rw [hx] at h
    exact ⟨x, rfl, h⟩

theorem normalize_of_check {m : Model} {v : Value} {x : m.Carrier} (h : m.check v = .ok x) :
    m.normalize v = m.dump x := by
  rw [normalize, h]

theorem normalize_dump {m : Model} {x : m.Carrier} {v : Value} (h : m.dump x = .ok v) :
    m.normalize v = .ok v :=
  (normalize_of_check (m.roundTrips.check_of_dump h)).trans h

theorem nesting_nested_program (n : Nat) :
    sourceProgram.nesting (⟨[.nested n]⟩ : Source.Program) = n := by
  show deepest Source.Expr.nesting [.nested n] = n
  rw [deepest_singleton, Source.Expr.nesting_nested]

-- An offset may come as text with blanks, zeros and a fraction of zeros, and next
-- to a field that tokens do not have.
example :
    Model.token.check (.object [("note", .null), ("offset", .text " 07.0 "),
      ("kind", .text "name"), ("text", .text "f")]) = .ok ⟨.name, "f", 7⟩ := by
  rfl

end Model

end ParenCall
