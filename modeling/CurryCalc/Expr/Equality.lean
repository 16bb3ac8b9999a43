import CurryCalc.Expr.Basic
import CurryCalc.Fault

/-! Equality of expression trees, up to equality of the values in them. -/
namespace CurryCalc

namespace Expr

/-- Compares two trees from left to right, and stops at the first difference. -/
def sameWithin : Nat → Expr → Expr → Except Failure Bool
  | 0, _, _ => .error .tooDeep
  | budget + 1, a, b =>
    let same (v w : Value) : Except Failure Bool :=
      (v.alikeWithin (.levels budget) w).elim (.error .tooDeep) .ok
    match a, b with
    | .number v, .number w => same v w
    | .argument i, .argument j => same i j
    | .name x, .name y => same x y
    | .binary op l r, .binary op' l' r' => do
      if !(← same op.value op'.value) then return false
      if !(← sameWithin budget l l') then return false
      sameWithin budget r r'
    | .letIn x b e, .letIn x' b' e' => do
      if !(← same x x') then return false
      if !(← sameWithin budget b b') then return false
      sameWithin budget e e'
    | .cond c t e, .cond c' t' e' => do
      if !(← sameWithin budget c c') then return false
      if !(← sameWithin budget t t') then return false
      sameWithin budget e e'
    | .foreign v, .foreign w => same v w
    | _, _ => .ok false

def same [Machine] (a b : Expr) : Except Failure Bool := sameWithin nestingLimit a b

end Expr

end CurryCalc
