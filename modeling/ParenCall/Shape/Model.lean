import ParenCall.Shape.Dump

/-! The things that have a shape, each with its check and its dump. Tokens and
options cannot be changed once they are made; the fields of any other record
can be set, to anything, but there are no others to set. A name that starts
with an underscore is free in every record and is not part of it. -/

namespace ParenCall

namespace Shape

def token (fields : Fields) : Checked Token :=
  Checked.both (fun (kind, text) offset => ⟨kind, text, offset⟩)
    (Checked.both Prod.mk (required "kind" (constant Token.Kind.ofLabel?) fields)
      (required "text" text fields))
    (optional "offset" 0 int fields)

def options (fields : Fields) : Checked Options :=
  Checked.both Options.mk (optional "verbose" false flag fields)
    (optional "allow_any_callee" false flag fields)

end Shape

inductive Model where
  | token
  | options
  | literal (language : Language) (kind : Literal.Kind)
  | sourceCall
  | sourceProgram
  | identifier
  | targetCall
  | statement
  | targetProgram
deriving DecidableEq, Repr

/-- Why a field was not set. -/
inductive Refusal where
  | invalid (issue : Issue)
  | noSuchField (name : String)
deriving DecidableEq, Repr

/-- How things of one type are read from plain data and written as such. -/
structure Schema (α : Type) where
  check : Value → Checked α
  dump : α → Dumped

namespace Model

/-- A literal whose kind is given by the model is known by its value, and a
statement by the expression it wraps. -/
def Carrier : Model → Type
  | .token => Token
  | .options => Options
  | .literal _ _ => String
  | .sourceCall => Source.Call
  | .sourceProgram => Source.Program
  | .identifier => Target.Identifier
  | .targetCall => Target.Call
  | .statement => Target.Expr
  | .targetProgram => Target.Program

def schema : (m : Model) → Schema m.Carrier
  | .token => ⟨Shape.record Shape.token, fun t => .ok t.dump⟩
  | .options => ⟨Shape.record Shape.options, fun o => .ok o.dump⟩
  | .literal _ kind =>
    ⟨Shape.record (Shape.literalValue kind), fun value => .ok (Literal.dump ⟨kind, value⟩)⟩
  | .sourceCall => ⟨Shape.record Shape.Source.call, Source.Call.dump⟩
  | .sourceProgram => ⟨Shape.record Shape.Source.program, Source.Program.dump⟩
  | .identifier =>
    ⟨Shape.record Shape.Target.identifier, fun i => .ok (Shape.Target.dumpIdentifier i)⟩
  | .targetCall => ⟨Shape.record Shape.Target.call, Target.Call.dump⟩
  | .statement => ⟨Shape.record Shape.Target.wrapped, Target.wrappedDump⟩
  | .targetProgram => ⟨Shape.record Shape.Target.program, Target.Program.dump⟩

def check (m : Model) : Value → Checked m.Carrier := m.schema.check

def dump (m : Model) : m.Carrier → Dumped := m.schema.dump

/-- Checked data, written out again with every field. -/
def normalize (m : Model) (v : Value) : Dumped :=
  match m.check v with
  | .error issues => .error (.invalid issues)
  | .ok x => m.dump x

def isFrozen : Model → Bool
  | .token | .options => true
  | _ => false

def assign (m : Model) (record : Value) (name : String) (value : Value) :
    Except Refusal Value :=
  if name.toList.head? = some '_' then .ok record
  else if m.isFrozen then .error (.invalid ⟨[.field name], .frozen⟩)
  else if record.hasField name then .ok (record.setField name value)
  else .error (.noSuchField name)

/-- Sets fields one after another. Each is told with the record it leaves
behind, which after a refusal is the one before. -/
def assignEach (m : Model) (record : Value) :
    List (String × Value) → List (Except Refusal Unit × Value)
  | [] => []
  | (name, value) :: rest =>
    match m.assign record name value with
    | .ok next => (.ok (), next) :: m.assignEach next rest
    | .error refusal => (.error refusal, record) :: m.assignEach record rest

end Model

end ParenCall
