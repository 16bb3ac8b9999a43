/-! The machine that programs run on, as far as they notice it: calls nest only so deep. -/
namespace CurryCalc

class Machine where
  nestingLimit : Nat

export Machine (nestingLimit)

/-- The machine that the interpreter is built for. -/
@[reducible] def Machine.standard : Machine := ⟨900⟩

/-- How many more levels calls may nest. -/
inductive Room where
  | levels (n : Nat)
  | unlimited
deriving DecidableEq, Repr

/-- The room inside a call that takes so many levels, if there is enough for it. -/
def Room.enter (cost : Nat) : Room → Option Room
  | .levels n => if cost ≤ n then some (.levels (n - cost)) else none
  | .unlimited => some .unlimited

end CurryCalc
