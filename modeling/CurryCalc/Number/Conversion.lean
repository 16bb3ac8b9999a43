import CurryCalc.Number.Literal
import CurryCalc.Text.Words

/-! Conversion of texts to numbers. More texts can be converted than are literals: there may be
blank characters around a number and marks between its digits, and there are words for what is
infinite and for what is undefined. -/
namespace CurryCalc

namespace Conversion

def startsWithDigit (cs : List Char) : Bool := (cs.head?.bind digitValue?).isSome

/-- Reads digits onto a number, and counts them. A mark may stand between two digits. -/
def digitsOnto (n count : Nat) : List Char → Nat × Nat × List Char
  | [] => (n, count, [])
  | c :: cs =>
    match digitValue? c with
    | some d => digitsOnto (10 * n + d) (count + 1) cs
    | none =>
      if c = '_' && 0 < count && startsWithDigit cs then digitsOnto n count cs
      else (n, count, c :: cs)

/-- Digits with at most one point: the number that they make up, how many of them stand after the
point, and the rest. -/
def mantissa? (cs : List Char) : Option (Nat × Nat × List Char) :=
  match digitsOnto 0 0 cs with
  | (n, whole, '.' :: more) =>
    match digitsOnto n 0 more with
    | (n, places, rest) => if whole + places = 0 then none else some (n, places, rest)
  | (n, whole, rest) => if whole = 0 then none else some (n, 0, rest)

def power? : List Char → Option Int
  | [] => some 0
  | c :: cs =>
    if c = 'e' || c = 'E' then
      match readSign cs with
      | (negative, digits) =>
        match digitsOnto 0 0 digits with
        | (n, count, rest) =>
          if count = 0 || !rest.isEmpty then none else some (Binary64.withSign negative n)
    else none

def decimal? (negative : Bool) (cs : List Char) : Option Binary64 :=
  match mantissa? cs with
  | none => none
  | some (n, places, rest) => (power? rest).map fun e => Binary64.ofDecimal negative n (e - places)

/-- Numbers that have a word of their own, in letters of either case. -/
def named? (negative : Bool) (cs : List Char) : Option Binary64 :=
  let word := String.ofList (cs.map Char.toLower)
  if word = "inf" || word = "infinity" then some (.infinite negative)
  else if word = "nan" then some .nan
  else none

end Conversion

def convert? (text : String) : Option Binary64 :=
  match readSign (trim text).toList with
  | (negative, cs) => Conversion.decimal? negative cs <|> Conversion.named? negative cs

end CurryCalc
