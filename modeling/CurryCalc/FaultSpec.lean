import CurryCalc.Writing

/-! Failures described from outside, by the name of their kind and values for its parameters. -/
namespace CurryCalc

structure FaultSpec where
  kind : String
  args : List Value
  named : List (String × Value)
deriving DecidableEq, Repr

namespace FaultSpec

/-- A parameter that has a default need not be given. -/
abbrev Parameter := String × Option Value

def enumeration : List String → String
  | [] => ""
  | [w] => w
  | [v, w] => v ++ " and " ++ w
  | words => ", ".intercalate words.dropLast ++ ", and " ++ words.getLast?.getD ""

def misfit (spec : FaultSpec) (text : String) : Failure :=
  .badParameters (spec.kind ++ ".__init__() " ++ text)

/-- The complaint about too many values by position. The failure itself counts as the first. -/
def crowded (spec : FaultSpec) (params : List Parameter) : Failure :=
  let most := params.length + 1
  let least := (params.filter fun p => p.2.isNone).length + 1
  let range := if least = most then intText most
    else "from " ++ intText least ++ " to " ++ intText most
  spec.misfit ("takes " ++ range ++ " positional arguments but " ++
    intText (spec.args.length + 1) ++ " were given")

def missing (spec : FaultSpec) (names : List String) : Failure :=
  spec.misfit ("missing " ++ intText names.length ++ " required positional argument" ++
    plural names.length ++ ": " ++ enumeration (names.map fun x => "'" ++ x ++ "'"))

def givenFor (spec : FaultSpec) (i : Nat) (p : Parameter) : Option Value :=
  spec.args[i]? <|> (spec.named.find? fun (x, _) => x == p.1).map Prod.snd <|> p.2

def givenTwice (name : String) : String := "got multiple values for argument '" ++ name ++ "'"

/-- The name of the parameter that stands for the failure itself, which always has a value. -/
def selfName : String := "self"

def nameTrouble? (spec : FaultSpec) (params : List Parameter) : Option Failure :=
  spec.named.findSome? fun (x, _) =>
    match params.findIdx? fun p => p.1 == x with
    | none =>
      some (spec.misfit (if x = selfName then givenTwice x
        else "got an unexpected keyword argument '" ++ x ++ "'"))
    | some i => if i < spec.args.length then some (spec.misfit (givenTwice x)) else none

def assign (spec : FaultSpec) (params : List Parameter) : Except Failure (String → Value) :=
  match spec.nameTrouble? params with
  | some f => .error f
  | none =>
    if params.length < spec.args.length then .error (spec.crowded params)
    else
      let slots := params.zipIdx.map fun (p, i) => (p.1, spec.givenFor i p)
      match slots.filter fun (_, v) => v.isNone with
      | [] => .ok fun x => ((slots.find? fun (y, _) => y == x).bind Prod.snd).getD .nothing
      | gaps => .error (spec.missing (gaps.map Prod.fst))

def whole (v : Value) : Int := v.toInt?.getD 0

def joined (v : Value) : Except Failure String :=
  match v with
  | .text s => .ok s
  | v => .error (.notJoined v.kind)

def foundToken (v : Value) : Except Failure (Option Token) :=
  match v, Token.ofValue? v with
  | .nothing, _ => .ok none
  | _, some t => .ok (some t)
  | v, none => .error (.noWordsOn v.kind "lexeme")

def sortedParts (v : Value) : Except Failure (List Value) :=
  match v.parts? with
  | none => .error (.notIterable v.kind)
  | some parts => (Sorting.sort Value.before parts).mapError .ofClash

section Building

variable [Machine]

def room : Room := .levels nestingLimit

def custom (spec : FaultSpec) : Except Failure Fault := do
  let given ← spec.assign
    [("msg", none), ("exprs", some .nothing), ("start", some (.int 0)), ("end", some (.int (-1))),
      ("diagnosis", some (.bool true)), ("internal", some (.bool false))]
  match given "msg" with
  | .text template =>
    let exprs := given "exprs"
    Fault.quoting room (.custom ⟨template, exprs.quotes, whole (given "start"), whole (given "end"),
      (given "diagnosis").holds, (given "internal").holds⟩) exprs
  | v => .error (.noWordsOn v.kind "format")

def warning (spec : FaultSpec) : Except Failure Fault :=
  if spec.named.any fun (x, _) => x == selfName then
    .error (.badParameters ("ErrorHandler.warn() " ++ givenTwice selfName))
  else spec.custom

def malformedArgument (spec : FaultSpec) : Except Failure Fault := do
  let given ← spec.assign [("lexeme", none), ("source", some .nothing), ("start", some (.int 0))]
  let lexeme := given "lexeme"
  let source := given "source"
  let cause ← Fault.worded room (.malformedArgument lexeme source (whole (given "start")))
  if lexeme.parts?.isNone then .error (.noLength lexeme.kind)
  else cause.quoting room (if source = .nothing then lexeme else source)

def unexpected (spec : FaultSpec) : Except Failure Fault := do
  let given ← spec.assign
    [("expected", none), ("found", none), ("position", none), ("source", some (.text "")),
      ("start", some (.int 0)), ("end", some (.int (-1)))]
  let found ← foundToken (given "found")
  let cause ← Fault.worded room (.unexpected (given "expected") found (whole (given "position"))
    (given "source") (whole (given "start")) (whole (given "end")))
  cause.quoting room (sourceOrTokens (given "source"))

def unbound (spec : FaultSpec) : Except Failure Fault := do
  let given ← spec.assign [("name", none)]
  Fault.quoting room (.unbound (given "name")) (given "name")

def argumentOutOfRange (spec : FaultSpec) : Except Failure Fault := do
  let given ← spec.assign [("index", none), ("available", none)]
  Fault.worded room (.argumentOutOfRange (given "index") (given "available"))

def nonBooleanCondition (spec : FaultSpec) : Except Failure Fault := do
  let given ← spec.assign [("value", none)]
  Fault.worded room (.nonBooleanCondition (given "value"))

def nonNumericOperand (spec : FaultSpec) : Except Failure Fault := do
  let given ← spec.assign [("op", none), ("value", none)]
  let op ← joined (given "op")
  Fault.worded room (.nonNumericOperand op (given "value"))

def tooManyArguments (spec : FaultSpec) : Except Failure Fault := do
  let given ← spec.assign [("arity", none), ("supplied", none)]
  Fault.worded room (.tooManyArguments (given "arity") (given "supplied"))

def nonContiguous (spec : FaultSpec) : Except Failure Fault := do
  let given ← spec.assign [("indices", none), ("source", some (.text ""))]
  let indices ← sortedParts (given "indices")
  let cause ← Fault.worded room (.nonContiguous indices (given "source"))
  cause.quoting room (sourceOrTokens (given "source"))

def nestedTooDeeply (spec : FaultSpec) : Except Failure Fault := do
  let given ← spec.assign [("stage", none), ("source", some (.text ""))]
  let stage ← joined (given "stage")
  Fault.quoting room (.nestedTooDeeply stage (given "source")) (sourceOrTokens (given "source"))

def fault? (spec : FaultSpec) : Option (Except Failure Fault) :=
  match spec.kind with
  | "GenericException" => some spec.custom
  | "MalformedArgumentToken" => some spec.malformedArgument
  | "ParseError" => some spec.unexpected
  | "UnboundIdentifier" => some spec.unbound
  | "ArgumentIndexOutOfRange" => some spec.argumentOutOfRange
  | "NonBooleanCondition" => some spec.nonBooleanCondition
  | "NonNumericOperand" => some spec.nonNumericOperand
  | "TooManyArguments" => some spec.tooManyArguments
  | "NonContiguousArguments" => some spec.nonContiguous
  | "NestingTooDeep" => some spec.nestedTooDeeply
  | _ => none

def messageOf (kind : String) (args : List Value) : Except Failure String :=
  match Value.unwritableAmong? room args, args with
  | some f, _ => .error f
  | none, [] => .ok ""
  | none, [v] => .ok (if kind = "KeyError" then v.inspect else v.toText)
  | none, args => .ok ("(" ++ ", ".intercalate (args.map Value.inspect) ++ ")")

def build (spec : FaultSpec) : Except Failure Failure :=
  match spec.fault? with
  | some outcome => outcome.map .fault
  | none =>
    if !spec.named.isEmpty then
      .error (.badParameters (spec.kind ++ "() takes no keyword arguments"))
    else
      match spec.kind with
      | "KeyboardInterrupt" => .ok .interrupt
      | "RecursionError" => .ok .tooDeep
      | "SystemExit" => (messageOf spec.kind spec.args).map .exit
      | kind => (messageOf kind spec.args).map (.foreign kind)

end Building

end FaultSpec

end CurryCalc
