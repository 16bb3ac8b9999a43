import CurryCalc.Number.Conversion
import CurryCalc.Writing

/-! From words to tokens. -/
namespace CurryCalc

/-- What follows the mark of a placeholder: digits of a number that is at least 1. -/
def readIndex? (digits : List Char) : Except Failure (Option Nat) :=
  if digits.isEmpty || !digits.all isAsciiDigit then .ok none
  else if digitLimit < digits.length then .error (.longIndex digits.length)
  else
    let index := ofDigits (digits.map fun c => c.toNat - '0'.toNat)
    .ok (if index < 1 then none else some index)

def toNumber (text : String) : Except Failure Binary64 :=
  match convert? text with
  | some x => .ok x
  | none => .error (.foreign "ValueError" ("could not convert string to float: " ++ quoted text))

/-- Classifies a word: numbers first, then reserved words, placeholders, and names. The source and
the offset of the word in it are used in messages only. -/
def classify (word : String) (source : Value) (offset : Int) : Except Failure Token :=
  if isNumber word then (toNumber word).map fun x => ⟨.number (.float x), word⟩
  else
    match Keyword.ofWord? word with
    | some k => .ok ⟨.keyword k, word⟩
    | none =>
      match word.toList with
      | '$' :: digits =>
        match readIndex? digits with
        | .error e => .error e
        | .ok none =>
          .error (.about .unlimited (if source = .nothing then word else source)
            (.malformedArgument word source offset))
        | .ok (some index) => .ok ⟨.placeholder (.int index), word⟩
      | _ => .ok ⟨.name (.text word), word⟩

/-- Classifies a value: a number stands for itself, and anything else for its text. An integer that
is small enough for a number can be written. -/
def classifyValue [Machine] (v : Value) (source : Value) (offset : Int) : Except Failure Token :=
  match v with
  | .int n => (intToFloat n).map fun x => ⟨.number (.float x), intText n⟩
  | .float x => .ok ⟨.number v, x.toText⟩
  | .undefined _ => .ok ⟨.number v, v.toText⟩
  | v =>
    match v.unwritable? (.levels nestingLimit) with
    | some f => .error f
    | none => classify v.toText source offset

def commentMark : String := ";;"

/-- The tokens of a text up to its first comment. -/
def tokenize (source : String) : Except Failure (List Token) :=
  let code := cutBefore commentMark source
  (wordsAt code).mapM fun w => classify w.text code w.offset

end CurryCalc
