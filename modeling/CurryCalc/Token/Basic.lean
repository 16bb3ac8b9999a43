import CurryCalc.Value

/-! Symbols, which the grammar is about, and tokens, which keep the text of each symbol. -/
namespace CurryCalc

inductive Keyword where
  | plus
  | minus
  | multiply
  | divide
  | letWord
  | inWord
  | eq
  | neq
  | ifWord
  | thenWord
  | elseWord
  /-- A value that is no reserved word; no text is read as one. -/
  | other (payload : Value)
deriving DecidableEq, Repr

namespace Keyword

def word : Keyword → String
  | .plus => "plus"
  | .minus => "minus"
  | .multiply => "multiply"
  | .divide => "divide"
  | .letWord => "let"
  | .inWord => "in"
  | .eq => "eq"
  | .neq => "neq"
  | .ifWord => "if"
  | .thenWord => "then"
  | .elseWord => "else"
  | .other v => v.toText

def all : List Keyword :=
  [.plus, .minus, .multiply, .divide, .letWord, .inWord, .eq, .neq, .ifWord, .thenWord, .elseWord]

def ofWord? (w : String) : Option Keyword := all.find? fun k => k.word == w

def value : Keyword → Value
  | .other v => v
  | k => .text k.word

def ofValue : Value → Keyword
  | .text w => (ofWord? w).getD (.other (.text w))
  | v => .other v

def isUnsupported : Keyword → Bool
  | .multiply | .divide => true
  | _ => false

end Keyword

/-- What the grammar sees of a token. Symbols read from a text have a binary64 number, a text or a
positive integer for their value; others may have any value. -/
inductive Symbol where
  | number (value : Value)
  | keyword (k : Keyword)
  | name (key : Value)
  | placeholder (index : Value)
deriving DecidableEq, Repr

namespace Symbol

def kind : Symbol → TokenKind
  | .number _ => .number
  | .keyword _ => .keyword
  | .name _ => .name
  | .placeholder _ => .placeholder

def value : Symbol → Value
  | .number v => v
  | .keyword k => k.value
  | .name key => key
  | .placeholder index => index

def ofKind (kind : TokenKind) (v : Value) : Symbol :=
  match kind with
  | .number => .number v
  | .keyword => .keyword (.ofValue v)
  | .name => .name v
  | .placeholder => .placeholder v

/-- Whether two symbols have the same kind and equal values, as far as there is room to find out. -/
def sameWithin (room : Room) (a b : Symbol) : Option Bool :=
  if a.kind = b.kind then a.value.alikeWithin room b.value else some false

def inspect (s : Symbol) : String := s.kind.text ++ "(" ++ s.value.inspect ++ ")"

end Symbol

/-- A symbol with the text that it was read from. -/
structure Token where
  symbol : Symbol
  lexeme : String
deriving DecidableEq, Repr

namespace Token

def ofValue? : Value → Option Token
  | .token kind v lexeme => some ⟨.ofKind kind v, lexeme⟩
  | _ => none

/-- The text of a token; one without a lexeme shows its value. -/
def text (t : Token) : String := if t.lexeme.isEmpty then t.symbol.value.toText else t.lexeme

end Token

/-- The text of a token sequence, one space between tokens. -/
def sourceOf (tokens : List Token) : String := " ".intercalate (tokens.map Token.text)

end CurryCalc
