import CurryCalc.Program

/-! Statements: definitions, applications of named programs, and programs run at once. -/
namespace CurryCalc

abbrev Namespace := Bindings String Item

def boolean? (word : String) : Option Bool :=
  if word = "true" then some true else if word = "false" then some false else none

def parseValue (word : String) (names : Namespace) : Except Failure Value :=
  if isNumber word then (toNumber word).map .float
  else
    match boolean? word with
    | some b => .ok (.bool b)
    | none =>
      match names.find? word with
      | some (.value v) => .ok v
      | _ => .error (.fault (.notAValue word))

def showValue : Value → String
  | .bool b => if b then "true" else "false"
  | .float x =>
    match x.toInt? with
    | some n => intText n
    | none => x.toText
  | v => v.toText

/-- A result as it is printed. A closure is labelled with its name, or else with its program. -/
def Item.show (name : String) : Item → String
  | .value v => showValue v
  | .closure c =>
    let label := if name.isEmpty then c.program.source else name
    "<" ++ label ++ ": " ++ c.progress ++ ">"

def shownValue [Machine] (v : Value) : Except Failure String :=
  (v.unwritable? (.levels nestingLimit)).elim (.ok (showValue v)) .error

def Item.shown [Machine] (name : String) : Item → Except Failure String
  | .value v => shownValue v
  | .closure c => .ok ((Item.closure c).show name)

inductive Action where
  | define (name definition : String)
  | apply (name : String) (args : List String)
  | exec (program : Program)
deriving DecidableEq, Repr

structure Statement where
  text : String
  cited : String
  action : Action
deriving DecidableEq, Repr

namespace Statement

/-- Whether a text is a definition. One that is nearly a definition is refused. -/
def isDefinition (text cited : String) : Except Failure Bool :=
  let text := trim text
  match findOffset? text declareMark with
  | none => .ok false
  | some i =>
    if findLastOffset? text declareMark ≠ some i then
      .error (.fault (.secondDeclaration cited))
    else
      let target := String.ofList (text.toList.take i)
      let definition := String.ofList (text.toList.drop (i + 2))
      match words target with
      | [name] =>
        if (boolean? name).isSome then .error (.fault (.invalidTarget cited))
        else
          match classify name .nothing 0 with
          | .error f => .error f
          | .ok ⟨.name _, _⟩ =>
            if (trim definition).isEmpty then .error (.fault (.missingDefinition cited))
            else .ok true
          | .ok _ => .error (.fault (.invalidTarget cited))
      | _ => .error (.fault (.invalidTarget cited))

def isApplication (text : String) (names : Namespace) : Bool :=
  match words text with
  | [] => false
  | name :: _ =>
    match names.find? name with
    | some (.closure _) => true
    | _ => false

def isProgram (text : String) : Bool := !(trim text).isEmpty

def ofDefinition (text cited : String) : Except Failure Statement :=
  match pieces (trim text) declareMark with
  | [name, definition] => .ok ⟨trim text, cited, .define (trim name) (trim definition)⟩
  | _ :: _ :: _ => .error (.tooManyParts "2")
  | few => .error (.tooFewParts "2" few.length)

def ofApplication (text cited : String) : Except Failure Statement :=
  match words text with
  | name :: args => .ok ⟨trim text, cited, .apply name args⟩
  | [] => .error (.tooFewParts "at least 1" 0)

def ofProgram [Machine] (text cited : String) : Except Failure Statement := do
  let tokens ← tokenize (trim text)
  let program ← Program.compile tokens
  return ⟨trim text, cited, .exec program⟩

def infer [Machine] (text : String) (names : Namespace) (cited : String) :
    Except Failure Statement :=
  match isDefinition text cited with
  | .error f => .error f
  | .ok true => ofDefinition text cited
  | .ok false =>
    if isApplication text names then ofApplication text cited
    else if isProgram text then ofProgram text cited
    else .error (.fault (.notAStatement cited))

def applyNamed [Machine] (name : String) (args : List String) (names : Namespace) :
    Except Failure Item := do
  let values ← args.mapM fun word => parseValue word names
  match names.find? name with
  | some (.closure c) => c.call values
  | some (.value v) => .error (.notCallable v.kind)
  | none => .error (.missingName (.text name))

/-- What a definition binds its name to. A program without placeholders is run. -/
def definedItem [Machine] (definition : String) (names : Namespace) : Except Failure Item :=
  if isApplication definition names then
    match words definition with
    | name :: args => applyNamed name args names
    | [] => .error (.tooFewParts "at least 1" 0)
  else do
    let tokens ← tokenize definition
    let closure ← Closure.compile tokens
    if closure.remaining = 0 then closure.call [] else return .closure closure

/-- Runs a statement: the names afterwards, and what there is to print. A program that takes
arguments is not run. -/
def execute [Machine] (s : Statement) (names : Namespace) :
    Except Failure (Namespace × Option String) :=
  match s.action with
  | .define name definition => do
    let item ← definedItem definition names
    return (names.insert name item, none)
  | .apply name args => do
    let item ← applyNamed name args names
    let text ← item.shown name
    return (names, some text)
  | .exec program =>
    if program.arity = 0 then do
      let v ← program.run []
      let text ← shownValue v
      return (names, some text)
    else .ok (names, none)

/-- Whether a statement is a program that was not run for want of arguments. -/
def isUnapplied (s : Statement) : Bool :=
  match s.action with
  | .exec program => program.arity != 0
  | _ => false

def kind (s : Statement) : String :=
  match s.action with
  | .define _ _ => "DefineStmt"
  | .apply _ _ => "ApplyStmt"
  | .exec _ => "ExecStmt"

def inspect (s : Statement) : String :=
  match s.action with
  | .define name definition => s.kind ++ "(name='" ++ name ++ "', rval='" ++ definition ++ "')"
  | _ => s.kind ++ "('" ++ s.text ++ "')"

def same (s t : Statement) : Bool := s.kind == t.kind && s.text == t.text

end Statement

/-- Compiles a program and applies it to the values of some words; all arguments have to be
there. -/
def runCommand [Machine] (program : String) (args : List String) : Except Failure String := do
  let tokens ← tokenize program
  let closure ← Closure.compile tokens
  let values ← args.mapM fun word => parseValue word Bindings.empty
  match ← closure.call values with
  | .value v => shownValue v
  | .closure c => throw (.fault (.missingArguments program c.remaining))

end CurryCalc
