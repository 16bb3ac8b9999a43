import CurryCalc.Expr.Display

/-! Reading expressions. The grammar has five layers:

    program  ::= let
    let      ::= "let" name let "in" let | if
    if       ::= "if" if "then" if "else" if | eq
    eq       ::= sum [("eq" | "neq") eq]
    sum      ::= operand {("plus" | "minus") operand}
    operand  ::= number | placeholder | name

Sums lean to the left and equalities to the right. Each layer returns its tree and the tokens after
it, or stops at the first token that no sentence has there. -/
namespace CurryCalc

inductive Expected where
  | endOfInput
  | nameAfterLet
  | inAfterBound
  | thenAfterTest
  | elseAfterBranch
  | operandAfter (k : Keyword)
  | expression
  | supported (k : Keyword)
deriving DecidableEq, Repr

def Expected.text : Expected → String
  | .endOfInput => "end of input"
  | .nameAfterLet => "identifier after 'let'"
  | .inAfterBound => "'in' after let-bound expression"
  | .thenAfterTest => "'then' after if condition"
  | .elseAfterBranch => "'else' after then-branch"
  | .operandAfter k => "operand after '" ++ k.word ++ "'"
  | .expression => "expression"
  | .supported k => "a supported operator ('" ++ k.word ++ "' is reserved but not supported)"

/-- Why reading stopped, and what was still to be read. -/
inductive Refusal (σ : Type) where
  | wanted (expected : Expected) (rest : List σ)
  | tooDeep
deriving DecidableEq, Repr

def operand? : Symbol → Option Expr
  | .number v => some (.number v)
  | .placeholder i => some (.argument i)
  | .name x => some (.name x)
  | .keyword _ => none

def additive? : Keyword → Option Operator
  | .plus => some .add
  | .minus => some .sub
  | _ => none

def comparison? : Keyword → Option Operator
  | .eq => some .eq
  | .neq => some .notEq
  | _ => none

namespace Parser

/-- Stops for want of `expected`; a reserved word without a meaning is named for what it is. -/
def refuse (expected : Expected) (rest : List Token) : Refusal Token :=
  match rest with
  | ⟨.keyword k, _⟩ :: _ => .wanted (if k.isUnsupported then .supported k else expected) rest
  | _ => .wanted expected rest

/-- The rest of a sum whose first terms make up `left`. -/
def sumFrom (left : Expr) : List Token → Except (Refusal Token) (Expr × List Token)
  | ⟨.keyword k, lexeme⟩ :: rest =>
    match additive? k with
    | some op =>
      match rest with
      | [] => .error (.wanted (.operandAfter k) [])
      | t :: rest =>
        match operand? t.symbol with
        | some right => sumFrom (.binary op left right) rest
        | none => .error (refuse (.operandAfter k) (t :: rest))
    | none =>
      if k.isUnsupported then .error (.wanted (.supported k) (⟨.keyword k, lexeme⟩ :: rest))
      else .ok (left, ⟨.keyword k, lexeme⟩ :: rest)
  | rest => .ok (left, rest)

def sum (expected : Expected) : List Token → Except (Refusal Token) (Expr × List Token)
  | [] => .error (.wanted expected [])
  | t :: rest =>
    match operand? t.symbol with
    | some left => sumFrom left rest
    | none => .error (refuse expected (t :: rest))

def equality : Nat → Expected → List Token → Except (Refusal Token) (Expr × List Token)
  | 0, _, _ => .error .tooDeep
  | budget + 1, expected, input =>
    match sum expected input with
    | .error r => .error r
    | .ok (left, ⟨.keyword k, lexeme⟩ :: rest) =>
      match comparison? k with
      | some op =>
        match equality budget (.operandAfter k) rest with
        | .error r => .error r
        | .ok (right, rest) => .ok (.binary op left right, rest)
      | none => .ok (left, ⟨.keyword k, lexeme⟩ :: rest)
    | .ok (left, rest) => .ok (left, rest)

def expect (k : Keyword) (expected : Expected) (input : List Token) :
    Except (Refusal Token) (List Token) :=
  match input with
  | ⟨.keyword k', _⟩ :: rest => if k' = k then .ok rest else .error (.wanted expected input)
  | _ => .error (.wanted expected input)

def conditional : Nat → List Token → Except (Refusal Token) (Expr × List Token)
  | 0, _ => .error .tooDeep
  | budget + 1, ⟨.keyword .ifWord, _⟩ :: rest => do
    let (test, rest) ← conditional budget rest
    let rest ← expect .thenWord .thenAfterTest rest
    let (yes, rest) ← conditional budget rest
    let rest ← expect .elseWord .elseAfterBranch rest
    let (no, rest) ← conditional budget rest
    return (.cond test yes no, rest)
  | budget + 1, input => equality (budget + 1) .expression input

def binding : Nat → List Token → Except (Refusal Token) (Expr × List Token)
  | 0, _ => .error .tooDeep
  | budget + 1, ⟨.keyword .letWord, _⟩ :: ⟨.name x, _⟩ :: rest => do
    let (bound, rest) ← binding budget rest
    let rest ← expect .inWord .inAfterBound rest
    let (body, rest) ← binding budget rest
    return (.letIn x bound body, rest)
  | _ + 1, ⟨.keyword .letWord, _⟩ :: rest => .error (.wanted .nameAfterLet rest)
  | budget + 1, input => conditional (budget + 1) input

def sentence (budget : Nat) (input : List Token) : Except (Refusal Token) Expr :=
  match binding budget input with
  | .error r => .error r
  | .ok (e, []) => .ok e
  | .ok (_, rest) => .error (.wanted .endOfInput rest)

end Parser

def tokenOffset : List Token → Nat → Nat
  | t :: tokens, position + 1 => t.text.length + 1 + tokenOffset tokens position
  | _, _ => 0

def unexpectedAt (tokens : List Token) (position : Nat) (expected : Expected) : Fault :=
  let source := sourceOf tokens
  let found := tokens[position]?
  let start : Nat := match found with
    | some _ => tokenOffset tokens position
    | none => if source.isEmpty then 0 else source.length + 1
  let width := found.elim 1 fun t => t.text.length
  .unexpected expected.text found position source start ((start : Int) + width)

/-- Reads the expression that a token sequence spells. The text of the sequence is made first, for
messages; a sequence without one is not read. -/
def parse [Machine] (tokens : List Token) : Except Failure Expr :=
  match unspellable? (.levels nestingLimit) tokens with
  | some f => .error f
  | none =>
    match Parser.sentence nestingLimit tokens with
    | .ok e => .ok e
    | .error .tooDeep => .error .tooDeep
    | .error (.wanted expected rest) =>
      .error (.fault (unexpectedAt tokens (tokens.length - rest.length) expected))

end CurryCalc
