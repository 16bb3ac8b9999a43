import CurryCalc.Expr.Display
import CurryCalc.Token.Classify
import CurryCalc.Scope

/-! Evaluation of expressions. -/
namespace CurryCalc

def argumentAtInt (room : Room) (args : List Value) (index : Value) (n : Int) :
    Except Failure Value :=
  match if 1 ≤ n then args[(n - 1).toNat]? else none with
  | some v => .ok v
  | none => .error (.raise room (.argumentOutOfRange index args.length))

/-- The argument with a given index. An index that is in range but no integer is refused, and so is
one that is no number. -/
def argumentAt (room : Room) (args : List Value) (index : Value) : Except Failure Value :=
  match index.toInt?, index.position? with
  | some n, _ => argumentAtInt room args index n
  | none, some p =>
    if p = .undefined || p.before (.quanta quantaPerUnit) ||
        Value.Position.before (.quanta (args.length * quantaPerUnit)) p then
      .error (.raise room (.argumentOutOfRange index args.length))
    else .error (.notAnIndex "tuple indices must be integers or slices" index.kind)
  | none, none => .error (.notOrdered "<=" "int" index.kind)

def numeric (room : Room) (v : Value) (op : String) : Except Failure Binary64 :=
  match v with
  | .float x => .ok x
  | .undefined _ => .ok .nan
  | .int n => intToFloat n
  | v => .error (.raise room (.nonNumericOperand op v))

/-- The number that an operand is, for an operator that any value may name. -/
def numericFor (room : Room) (v op : Value) : Except Failure Binary64 :=
  match op, v.isBool, v.toFloat? with
  | .text op, _, _ => numeric room v op
  | _, false, some x => x
  | op, _, _ => .error (.notJoined op.kind)

def Operator.isAdditive : Operator → Bool
  | .add | .sub => true
  | _ => false

def Operator.apply (room : Room) : Operator → Value → Value → Except Failure Value
  | .add, a, b => do
    let x ← numeric room a "plus"
    let y ← numeric room b "plus"
    return .float (x.add y)
  | .sub, a, b => do
    let x ← numeric room a "minus"
    let y ← numeric room b "minus"
    return .float (x.sub y)
  | .eq, a, b => (a.equalsWithin room b).elim (.error .tooDeep) fun same => .ok (.bool same)
  | .notEq, a, b => (a.equalsWithin room b).elim (.error .tooDeep) fun same => .ok (.bool !same)
  | .other name, _, _ => .error (.about room name (.unknownOperator name))

namespace Expr

/-- The leftmost term of a sum and the terms after it, each with its operator. Sums may be longer
than the nesting limit, so that they are folded and not descended into. -/
def spine : Expr → List (Operator × Expr) → Expr × List (Operator × Expr)
  | .binary .add l r, terms => spine l ((.add, r) :: terms)
  | .binary .sub l r, terms => spine l ((.sub, r) :: terms)
  | e, terms => (e, terms)

def foldTerms (room : Room) (value : Expr → Except Failure Value) :
    Value → List (Operator × Expr) → Except Failure Value
  | total, [] => .ok total
  | total, (op, e) :: terms =>
    match value e with
    | .error f => .error f
    | .ok v =>
      match op.apply room total v with
      | .error f => .error f
      | .ok total => foldTerms room value total terms

/-- The value of an expression, if it nests no deeper than the budget. What is left of the budget is
the room for comparing values and for writing them in messages. -/
def evaluate : Nat → Expr → Scope → List Value → Except Failure Value
  | 0, _, _, _ => .error .tooDeep
  | budget + 1, e, scope, args =>
    match e with
    | .number v => .ok v
    | .argument i => argumentAt (.levels budget) args i
    | .name x => scope.lookup (.levels budget) x
    | .binary op l r =>
      if op.isAdditive then
        match evaluate budget (spine (.binary op l r) []).1 scope args with
        | .error f => .error f
        | .ok total =>
          foldTerms (.levels budget) (fun e => evaluate budget e scope args) total
            (spine (.binary op l r) []).2
      else do
        let a ← evaluate budget l scope args
        let b ← evaluate budget r scope args
        op.apply (.levels budget) a b
    | .letIn x bound body => do
      let v ← evaluate budget bound scope args
      let key ← nameKey x
      evaluate budget body (scope.insert key v) args
    | .cond test yes no => do
      match ← evaluate budget test scope args with
      | .bool b => evaluate budget (if b then yes else no) scope args
      | v => .error (.raise (.levels budget) (.nonBooleanCondition v))
    | .foreign v => .error (.raise (.levels budget) (.notAnExpression v))

/-- The plain recursive meaning of an expression, with no limit on the nesting of anything. -/
def meaning : Expr → Scope → List Value → Except Failure Value
  | .number v, _, _ => .ok v
  | .argument i, _, args => argumentAt .unlimited args i
  | .name x, scope, _ => scope.lookup .unlimited x
  | .binary op l r, scope, args => do
    let a ← meaning l scope args
    let b ← meaning r scope args
    op.apply .unlimited a b
  | .letIn x bound body, scope, args => do
    let v ← meaning bound scope args
    let key ← nameKey x
    meaning body (scope.insert key v) args
  | .cond test yes no, scope, args => do
    match ← meaning test scope args with
    | .bool b => if b then meaning yes scope args else meaning no scope args
    | v => .error (.raise .unlimited (.nonBooleanCondition v))
  | .foreign v, _, _ => .error (.raise .unlimited (.notAnExpression v))

end Expr

end CurryCalc
