import CurryCalc.Text.Digit
import CurryCalc.Number.Binary64

/-! Number literals: a sign, digits with at most one point, and an exponent. -/
namespace CurryCalc

def digitRun : List Char → List Nat × List Char
  | [] => ([], [])
  | c :: cs =>
    match digitValue? c with
    | some d =>
      let r := digitRun cs
      (d :: r.1, r.2)
    | none => ([], c :: cs)

/-- An optional sign; true is minus. -/
def readSign : List Char → Bool × List Char
  | '-' :: cs => (true, cs)
  | '+' :: cs => (false, cs)
  | cs => (false, cs)

structure NumberLiteral where
  negative : Bool
  whole : List Nat
  fraction : List Nat
  exponent : Int
deriving DecidableEq, Repr

namespace NumberLiteral

/-- Digits before and after a point; one of the two runs has to be there. -/
def readMantissa? (cs : List Char) : Option (List Nat × List Nat × List Char) :=
  match digitRun cs with
  | ([], '.' :: rest) =>
    match digitRun rest with
    | ([], _) => none
    | (fraction, rest) => some ([], fraction, rest)
  | ([], _) => none
  | (whole, '.' :: rest) => some (whole, digitRun rest)
  | (whole, rest) => some (whole, [], rest)

/-- What follows the mantissa: nothing, or an exponent up to the end. -/
def readExponent? : List Char → Option Int
  | [] => some 0
  | c :: cs =>
    if c = 'e' || c = 'E' then
      match readSign cs with
      | (negative, digits) =>
        match digitRun digits with
        | ([], _) => none
        | (ds, []) => some (Binary64.withSign negative (ofDigits ds))
        | (_, _ :: _) => none
    else none

def read? (cs : List Char) : Option NumberLiteral :=
  match readSign cs with
  | (negative, cs) =>
    match readMantissa? cs with
    | none => none
    | some (whole, fraction, rest) =>
      match readExponent? rest with
      | none => none
      | some exponent => some ⟨negative, whole, fraction, exponent⟩

def toBinary64 (l : NumberLiteral) : Binary64 :=
  Binary64.ofDecimal l.negative (ofDigits (l.whole ++ l.fraction)) (l.exponent - l.fraction.length)

end NumberLiteral

def readNumber? (word : String) : Option Binary64 :=
  (NumberLiteral.read? word.toList).map NumberLiteral.toBinary64

def isNumber (word : String) : Bool := (NumberLiteral.read? word.toList).isSome

end CurryCalc
