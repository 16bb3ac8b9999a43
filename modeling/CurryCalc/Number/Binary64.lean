/-! Binary64 numbers, exactly. The finite magnitudes are ranked in increasing order, and each is a
whole number of quanta of size 2^-1074; sums are formed in quanta and rounded once. -/
namespace CurryCalc

abbrev rankBound : Nat := 2047 * Nat.pow 2 52

inductive Binary64 where
  | finite (negative : Bool) (rank : Fin rankBound)
  | infinite (negative : Bool)
  | nan
deriving DecidableEq, Repr

abbrev quantaPerUnit : Nat := Nat.pow 2 1074

/-- Neighbouring magnitudes around this rank are `2 ^ rankScale rank` quanta apart. -/
def rankScale (rank : Nat) : Nat := rank / Nat.pow 2 52 - 1

/-- The magnitude with a given rank, in quanta. -/
def rankQuanta (rank : Nat) : Nat :=
  (rank - rankScale rank * Nat.pow 2 52) * Nat.pow 2 (rankScale rank)

/-- The quotient rounded to a nearest integer, to the even one of two. -/
def divideToEven (n d : Nat) : Nat :=
  let q := n / d
  let r := n % d
  if 2 * r < d ∨ (2 * r = d ∧ q % 2 = 0) then q else q + 1

/-- The rank nearest to `n / d` quanta, the even one of two. Ranks from `rankBound` on stand for
magnitudes too large to be finite. -/
def nearestRank (n d : Nat) : Nat :=
  let scale := (n / d).log2 - 52
  scale * Nat.pow 2 52 + divideToEven n (d * Nat.pow 2 scale)

namespace Binary64

def ofRank (negative : Bool) (rank : Nat) : Binary64 :=
  if h : rank < rankBound then .finite negative ⟨rank, h⟩ else .infinite negative

def zero (negative : Bool) : Binary64 := ofRank negative 0

def ofQuanta (negative : Bool) (n d : Nat) : Binary64 := ofRank negative (nearestRank n d)

def ofInt (n : Int) : Binary64 := ofQuanta (n < 0) (n.natAbs * quantaPerUnit) 1

/-- The number nearest to `± n * 10 ^ e`. The two bounds on `e` only save work: beyond them every
result is infinite or zero. -/
def ofDecimal (negative : Bool) (n : Nat) (e : Int) : Binary64 :=
  if n = 0 then zero negative
  else if 400 < e then .infinite negative
  else if e < -(400 + n.log2 : Int) then zero negative
  else if 0 ≤ e then ofQuanta negative (n * Nat.pow 10 e.toNat * quantaPerUnit) 1
  else ofQuanta negative (n * quantaPerUnit) (Nat.pow 10 (-e).toNat)

def isNegative : Binary64 → Bool
  | .finite negative _ => negative
  | .infinite negative => negative
  | .nan => false

def isFinite : Binary64 → Bool
  | .finite _ _ => true
  | _ => false

def withSign (negative : Bool) (n : Nat) : Int := if negative then -n else n

def quanta? : Binary64 → Option Int
  | .finite negative rank => some (withSign negative (rankQuanta rank))
  | _ => none

def neg : Binary64 → Binary64
  | .finite negative rank => .finite (!negative) rank
  | .infinite negative => .infinite (!negative)
  | .nan => .nan

/-- The sum, rounded once. A sum of zero is negative only if both terms are. -/
def add : Binary64 → Binary64 → Binary64
  | .nan, _ => .nan
  | _, .nan => .nan
  | .infinite s, .infinite t => if s = t then .infinite s else .nan
  | .infinite s, .finite _ _ => .infinite s
  | .finite _ _, .infinite t => .infinite t
  | .finite s a, .finite t b =>
    let total := withSign s (rankQuanta a) + withSign t (rankQuanta b)
    if total = 0 then zero (s && t) else ofQuanta (total < 0) total.natAbs 1

def sub (a b : Binary64) : Binary64 := add a (neg b)

/-- Numeric equality: the two zeros agree, and NaN differs from everything. -/
def same : Binary64 → Binary64 → Bool
  | .nan, _ => false
  | _, .nan => false
  | .infinite s, .infinite t => s == t
  | a, b => a.quanta?.isSome && a.quanta? == b.quanta?

def isInt (x : Binary64) (n : Int) : Bool := x.quanta? == some (n * quantaPerUnit)

def toInt? (x : Binary64) : Option Int :=
  match x with
  | .finite negative rank =>
    if rankQuanta rank % quantaPerUnit = 0 then
      some (withSign negative (rankQuanta rank / quantaPerUnit))
    else none
  | _ => none

end Binary64

end CurryCalc
