import CurryCalc.Number.Literal

/-! Decimal texts of binary64 numbers: the fewest digits that read back, nearest first. -/
namespace CurryCalc

structure Decimal where
  digits : Nat
  exponent : Int
deriving DecidableEq, Repr

def decimalLength (n : Nat) : Nat := (Nat.toDigits 10 n).length

/-- An `e` with `10 ^ e ≤ n / d ≤ 10 ^ (e + 1)`, for a positive quotient. -/
def decimalOrder (n d : Nat) : Int :=
  if d ≤ n then (decimalLength (n / d) : Int) - 1 else -(decimalLength (d / n) : Int)

/-- The decimals just below and above `n / d` on the grid of multiples of `10 ^ e`, the nearer one
first; of two equally near, the even one. -/
def gridNeighbours (n d : Nat) (e : Int) : List Decimal :=
  let top := n * Nat.pow 10 (-e).toNat
  let bottom := d * Nat.pow 10 e.toNat
  let below := top / bottom
  if divideToEven top bottom = below then [⟨below, e⟩, ⟨below + 1, e⟩]
  else [⟨below + 1, e⟩, ⟨below, e⟩]

def zeros (n : Nat) : List Char := List.replicate n '0'

def dropTrailingZeros (ds : List Char) : List Char :=
  match (ds.reverse.dropWhile (· == '0')).reverse with
  | [] => ['0']
  | kept => kept

def exponentText (e : Int) : List Char :=
  let ds := Nat.toDigits 10 e.natAbs
  (if e < 0 then '-' else '+') :: (zeros (2 - ds.length) ++ ds)

/-- Digits `d₀d₁…` standing for `d₀.d₁… * 10 ^ order`. Orders from -4 to 15 are written without an
exponent and with a fraction. -/
def placePoint (ds : List Char) (order : Int) : List Char :=
  if order < -4 || 16 ≤ order then
    let fraction := ds.drop 1
    ds.take 1 ++ (if fraction.isEmpty then [] else '.' :: fraction) ++ 'e' :: exponentText order
  else if order < 0 then '0' :: '.' :: (zeros (-order - 1).toNat ++ ds)
  else
    let whole := order.toNat + 1
    let fraction := ds.drop whole
    ds.take whole ++ zeros (whole - ds.length) ++
      '.' :: (if fraction.isEmpty then ['0'] else fraction)

def Decimal.text (d : Decimal) : List Char :=
  let ds := Nat.toDigits 10 d.digits
  placePoint (dropTrailingZeros ds) (d.exponent + ds.length - 1)

def readsAs (rank : Nat) (text : List Char) : Bool :=
  (NumberLiteral.read? text).map NumberLiteral.toBinary64 == some (Binary64.ofRank false rank)

/-- The best text with `count` digits that reads back as the magnitude of this rank. -/
def withDigits? (rank count : Nat) : Option (List Char) :=
  let e := decimalOrder (rankQuanta rank) quantaPerUnit - count + 1
  ((gridNeighbours (rankQuanta rank) quantaPerUnit e).map Decimal.text).find? (readsAs rank)

def exactText (rank : Nat) : List Char :=
  Nat.toDigits 10 (rankQuanta rank * Nat.pow 5 1074) ++ ['e', '-', '1', '0', '7', '4']

/-- Seventeen digits suffice for every magnitude; the exact text stands behind them. -/
def magnitudeText (rank : Nat) : List Char :=
  ((List.range 17).findSome? fun k => withDigits? rank (k + 1)).getD (exactText rank)

def signText (negative : Bool) : List Char := if negative then ['-'] else []

def Binary64.toText : Binary64 → String
  | .finite negative rank => String.ofList (signText negative ++ magnitudeText rank)
  | .infinite negative => String.ofList (signText negative ++ ['i', 'n', 'f'])
  | .nan => "nan"

def intText (n : Int) : String := String.ofList (signText (n < 0) ++ Nat.toDigits 10 n.natAbs)

end CurryCalc
