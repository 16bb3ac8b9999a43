import CurryCalc.Text.Unprintable

/-! Quoted text: the form in which a text value is shown inside messages and listings. -/
namespace CurryCalc

def hexDigits : Nat → Nat → List Char
  | 0, _ => []
  | width + 1, n => hexDigits width (n / 16) ++ [Nat.digitChar (n % 16)]

/-- An unprintable character is written by its code point, in as few of two, four or eight digits
as hold it. -/
def escapeCode (n : Nat) : List Char :=
  if n < 0x100 then '\\' :: 'x' :: hexDigits 2 n
  else if n < 0x10000 then '\\' :: 'u' :: hexDigits 4 n
  else '\\' :: 'U' :: hexDigits 8 n

def escapeChar (quote c : Char) : List Char :=
  if c == quote || c == '\\' then ['\\', c]
  else if c == '\n' then ['\\', 'n']
  else if c == '\r' then ['\\', 'r']
  else if c == '\t' then ['\\', 't']
  else if isPrintable c then [c]
  else escapeCode c.toNat

/-- Single quotes, unless the text holds one of them and no double quote. -/
def quoteFor (s : String) : Char :=
  if s.toList.contains '\'' && !s.toList.contains '"' then '"' else '\''

def quoted (s : String) : String :=
  let quote := quoteFor s
  String.ofList (quote :: (s.toList.flatMap (escapeChar quote) ++ [quote]))

def quotedPlainly (s : String) : String :=
  String.ofList ((quoted s).toList.flatMap fun c =>
    if c.toNat < 0x80 then [c] else escapeCode c.toNat)

end CurryCalc
