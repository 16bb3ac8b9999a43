import CurryCalc.Sorting.Runs
import CurryCalc.Value

/-! The order of values. Numbers are ordered by their exact value, texts by their characters, lists
item by item and sets by inclusion; other values have no order. -/
namespace CurryCalc

/-- The kinds of two values without an order. -/
structure Clash where
  kind : String
  other : String
deriving DecidableEq, Repr

namespace Value

inductive Position where
  | below
  | quanta (n : Int)
  | above
  | undefined
deriving DecidableEq, Repr

def Position.before : Position → Position → Bool
  | .undefined, _ => false
  | _, .undefined => false
  | .below, q => q ≠ .below
  | _, .below => false
  | .quanta m, .quanta n => m < n
  | .quanta _, .above => true
  | .above, _ => false

def position? : Value → Option Position
  | .undefined _ => some .undefined
  | .float .nan => some .undefined
  | .float (.infinite negative) => some (if negative then .below else .above)
  | .float x => x.quanta?.map .quanta
  | v => v.toInt?.map fun n => .quanta (n * quantaPerUnit)

mutual

def before : Value → Value → Except Clash Bool
  | .text s, .text t => .ok (s < t)
  | .int m, .int n => .ok (m < n)
  | .list xs, .list ys => beforeAll xs ys
  | .tuple xs, .tuple ys => beforeAll xs ys
  | .set xs, .set ys => .ok (xs.length < ys.length && alikeAmong xs ys)
  | a, b =>
    match a.position?, b.position? with
    | some p, some q => .ok (p.before q)
    | _, _ => .error ⟨a.kind, b.kind⟩

/-- The first items that are not alike decide, or else the lengths. -/
def beforeAll : List Value → List Value → Except Clash Bool
  | _, [] => .ok false
  | [], _ :: _ => .ok true
  | x :: xs, y :: ys => if x.alike y then beforeAll xs ys else before x y

end

def clash? (values : List Value) : Option Clash :=
  if values.all fun v => v.position?.isSome then none
  else
    match Sorting.sort before values with
    | .error clash => some clash
    | .ok _ => none

/-- Puts a value into an ascending list; of those alike, the later is taken out. -/
def insertAscending (v : Value) : List Value → List Value
  | [] => [v]
  | w :: rest =>
    if v.before w matches .ok true then v :: w :: rest
    else if v.normal = w.normal then v :: rest
    else w :: insertAscending v rest

def ascending (values : List Value) : List Value := values.foldr insertAscending []

end Value

end CurryCalc
