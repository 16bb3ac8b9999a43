import CurryCalc.Fault

/-! What can be put in words. An integer is written only if it does not have too many digits, and
values within values are written by calls that nest. Numbers of things and places in texts are far
from having too many digits. -/
namespace CurryCalc

def digitLimit : Nat := 4300

@[irreducible] def isLong (n : Int) : Bool := Nat.ble (Nat.pow 10 digitLimit) n.natAbs

namespace Value

mutual

/-- What keeps a value from being written, if anything does. A token takes two levels. -/
def unwritable? : Room → Value → Option Failure
  | _, .int n => if isLong n then some .longInteger else none
  | room, .list items => (room.enter 1).elim (some .tooDeep) fun room => unwritableAmong? room items
  | room, .tuple items =>
    (room.enter 1).elim (some .tooDeep) fun room => unwritableAmong? room items
  | room, .set items => (room.enter 1).elim (some .tooDeep) fun room => unwritableAmong? room items
  | room, .token _ v _ => (room.enter 2).elim (some .tooDeep) fun room => unwritable? room v
  | _, _ => none

def unwritableAmong? : Room → List Value → Option Failure
  | _, [] => none
  | room, v :: vs => unwritable? room v <|> unwritableAmong? room vs

end

end Value

namespace Token

def unwritable? (room : Room) (t : Token) : Option Failure :=
  if t.lexeme.isEmpty then t.symbol.value.unwritable? room else none

end Token

def unspellable? (room : Room) (tokens : List Token) : Option Failure :=
  tokens.findSome? (Token.unwritable? room)

namespace Fault

/-- What keeps a problem from being worded, apart from what it quotes. -/
def unwordable? (room : Room) : Fault → Option Failure
  | .malformedArgument lexeme _ _ => lexeme.unwritable? room
  | .unexpected expected found position _ _ _ =>
    found.bind (Token.unwritable? room) <|> expected.unwritable? room <|>
      Value.unwritable? room (.int position)
  | .argumentOutOfRange index available => available.unwritable? room <|> index.unwritable? room
  | .nonBooleanCondition value => value.unwritable? room
  | .nonNumericOperand _ value => value.unwritable? room
  | .tooManyArguments arity supplied => arity.unwritable? room <|> supplied.unwritable? room
  | .nonContiguous indices _ => Value.unwritableAmong? room indices
  | .notAnExpression value => value.unwritable? room
  | _ => none

def worded (room : Room) (cause : Fault) : Except Failure Fault :=
  (cause.unwordable? room).elim (.ok cause) .error

/-- A problem that quotes a value, if that value can be quoted. A set has no first text, which shows
once the message is filled in. -/
def quoting (room : Room) (cause : Fault) (v : Value) : Except Failure Fault :=
  match v with
  | .nothing | .text _ => .ok cause
  | .list items | .tuple items => (Value.unwritableAmong? room items).elim (.ok cause) .error
  | .set items =>
    match Value.unwritableAmong? room items, Template.fill cause.draft.template v.quotes with
    | some f, _ => .error f
    | none, .error e => .error (.badTemplate e)
    | none, .ok _ => .error (.noValuesOn v.kind)
  | v => .error (.notIterable v.kind)

/-- Further lines that explain a problem. The excess of one count over another can always be
written, but that of numbers with different signs may be too long. -/
def notes (room : Room) : Fault → Except Failure (List String)
  | .unexpected expected found position _ _ _ =>
    match found.bind fun t => t.symbol.value.unwritable? room with
    | some f => .error f
    | none =>
      let stoppedAt := found.elim "end of input" fun t => t.symbol.inspect
      .ok ["the parser wanted " ++ expected.toText,
        "it stopped at token " ++ intText position ++ ": " ++ stoppedAt]
  | .tooManyArguments arity supplied =>
    match supplied.minus arity with
    | .error f => .error f
    | .ok excess =>
      match if arity.isNegative || supplied.isNegative then excess.unwritable? room else none with
      | some f => .error f
      | none => .ok [excess.toText ++
        " argument(s) too many; the program is unchanged and can be called again"]
  | .nestedTooDeeply _ _ => .ok ["bind inner parts to names with ':=' and apply them instead"]
  | _ => .ok []

end Fault

namespace Failure

def raise (room : Room) (cause : Fault) : Failure := (cause.unwordable? room).getD (.fault cause)

/-- The problem that quotes a value, or else what keeps the value from being quoted. -/
def about (room : Room) (v : Value) (cause : Fault) : Failure :=
  match cause.quoting room v with
  | .ok cause => .fault cause
  | .error f => f

end Failure

end CurryCalc
