/-! Searching for the first index at which a test holds that holds at all later ones too. The test
may fail, and then so does the search. -/
namespace CurryCalc

namespace Sorting

variable {ε : Type}

/-- The first index from `low` on and below `high` at which the test holds, or else `high`. -/
def halve (test : Nat → Except ε Bool) (low high : Nat) : Except ε Nat :=
  if low < high then
    let middle := low + (high - low) / 2
    match test middle with
    | .error e => .error e
    | .ok true => halve test low middle
    | .ok false => halve test (middle + 1) high
  else .ok low
termination_by high - low

/-- Takes longer and longer strides until one is too long. Gives the last one that was not, and the
first one that was or else the bound. -/
def stride (tooLong : Nat → Except ε Bool) (bound last next : Nat) : Except ε (Nat × Nat) :=
  if next < bound then
    match tooLong next with
    | .error e => .error e
    | .ok true => .ok (last, next)
    | .ok false => stride tooLong bound next (2 * next + 1)
  else .ok (last, bound)
termination_by bound - next

/-- The first of `n` indices at which the test holds, or else `n`. The search starts at a hint and
narrows down to an interval first. -/
def gallop (test : Nat → Except ε Bool) (n hint : Nat) : Except ε Nat := do
  if ← test hint then
    let (last, next) ← stride (fun k => (test (hint - k)).map not) (hint + 1) 0 1
    halve test (hint + 1 - next) (hint - last)
  else
    let (last, next) ← stride (fun k => test (hint + k)) (n - hint) 0 1
    halve test (hint + last + 1) (hint + next)

end Sorting

end CurryCalc
