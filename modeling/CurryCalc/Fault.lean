import CurryCalc.Token.Basic
import CurryCalc.Value.Members
import CurryCalc.Text.Excerpt
import CurryCalc.Text.Template

/-! Causes of reported problems, and everything else that can stop an operation. -/
namespace CurryCalc

def hole : String := "\x7b\x7d"

/-- A problem before its message is put together. -/
structure Draft where
  template : String
  /-- Texts for the places of the template; the first is the offending expression. -/
  quotes : List String
  start : Int := 0
  /-- Where the offending part ends; -1 is the end of the expression. -/
  stop : Int := -1
  underline : Bool := true
  internal : Bool := false
deriving DecidableEq, Repr

/-- What the interpreter finds wrong has texts and integers for its data; what is described from
outside may have other values. -/
inductive Fault where
  /-- Without a source, the lexeme is its own source. -/
  | malformedArgument (lexeme source : Value) (start : Int)
  | unexpected (expected : Value) (found : Option Token) (position : Int) (source : Value)
      (start stop : Int)
  | unbound (name : Value)
  | argumentOutOfRange (index available : Value)
  | nonBooleanCondition (value : Value)
  | nonNumericOperand (op : String) (value : Value)
  | tooManyArguments (arity supplied : Value)
  | nonContiguous (indices : List Value) (source : Value)
  | nestedTooDeeply (stage : String) (source : Value)
  | unknownOperator (name : Value)
  | notAnExpression (value : Value)
  | notAValue (word : String)
  | notAStatement (text : String)
  | secondDeclaration (text : String)
  | invalidTarget (text : String)
  | missingDefinition (text : String)
  | missingArguments (program : String) (remaining : Int)
  | unappliedProgram (text : String)
  | unreadableFile (path : String)
  | reservedFile
  | interrupted
  | unforeseen (kind text : String)
  | custom (draft : Draft)
deriving DecidableEq, Repr

/-- Everything that stops an operation. -/
inductive Failure where
  | fault (cause : Fault)
  | badTemplate (cause : Template.Error)
  | nothingQuoted
  | overflow
  | longIndex (digits : Nat)
  | longInteger
  | tooDeep
  | emptyStatement
  | noResult
  | missingName (name : Value)
  | notAWord (name : String)
  | noWordsOn (kind name : String)
  | noValuesOn (kind : String)
  | notCallable (kind : String)
  | notIterable (kind : String)
  | noLength (kind : String)
  | unhashable (kind : String)
  | notOrdered (comparison kind other : String)
  | noDifference (kind other : String)
  | notAnIndex (what kind : String)
  | indexOutOfRange (what : String)
  | hugeIndex
  | notJoined (kind : String)
  | notSearchable (kind : String)
  | badParameters (text : String)
  | tooFewParts (wanted : String) (got : Nat)
  | tooManyParts (wanted : String)
  | nulInPath
  | interrupt
  | exit (code : String)
  | foreign (kind text : String)
deriving DecidableEq, Repr

def declareMark : String := ":="

def plural (n : Value) : String := if n.same (.int 1) then "" else "s"

/-- The texts that a value gives for the places of a template. -/
def Value.quotes : Value → List String
  | .nothing => [""]
  | .list items => items.map toText
  | .tuple items => items.map toText
  | .set items => items.map toText
  | v => [v.toText]

/-- A source text for messages; tokens may come without one. -/
def sourceOrTokens (source : Value) : Value := if source.holds then source else "<tokens>"

def intToFloat (n : Int) : Except Failure Binary64 :=
  let x := Binary64.ofInt n
  if x.isFinite then .ok x else .error .overflow

def Value.toFloat? : Value → Option (Except Failure Binary64)
  | .float x => some (.ok x)
  | .undefined _ => some (.ok .nan)
  | v => v.toInt?.map intToFloat

def Value.minus (a b : Value) : Except Failure Value :=
  match a, b with
  | .set xs, .set ys => .ok (.set (without xs ys))
  | a, b =>
    match a.toInt?, b.toInt?, a.toFloat?, b.toFloat? with
    | some m, some n, _, _ => .ok (.int (m - n))
    | _, _, some x, some y => do return .float ((← x).sub (← y))
    | _, _, _, _ => .error (.noDifference a.kind b.kind)

def Value.isNegative (v : Value) : Bool := v.toInt?.any (· < 0)

def Failure.ofClash (clash : Clash) : Failure := .notOrdered "<" clash.kind clash.other

namespace Fault

open Template (escape)

def foundText : Option Token → String
  | none => "end of input"
  | some t => "'" ++ escape t.text ++ "'"

def draft : Fault → Draft
  | .malformedArgument lexeme source start =>
    let start := if source = .nothing then 0 else start
    { template := "'" ++ hole ++ "' contains malformed argument placeholder '" ++
        escape lexeme.toText ++ "' (expected '$' and an index >= 1)"
      quotes := (if source = .nothing then lexeme else source).quotes
      start := start
      stop := start + (lexeme.parts?.getD []).length }
  | .unexpected expected found position source start stop =>
    { template := "'" ++ hole ++ "' expected " ++ escape expected.toText ++ ", found " ++
        foundText found ++ " (token " ++ intText position ++ ")"
      quotes := (sourceOrTokens source).quotes
      start := start
      stop := stop
      underline := source.holds }
  | .unbound name =>
    { template := "identifier '" ++ hole ++ "' is not bound"
      quotes := name.quotes
      underline := false }
  | .argumentOutOfRange index available =>
    { template := "argument '" ++ hole ++ "' is out of range (" ++ available.toText ++
        " argument" ++ plural available ++ " available)"
      quotes := ["$" ++ index.toText]
      underline := false }
  | .nonBooleanCondition value =>
    { template := "if condition must be a boolean, got '" ++ hole ++ "'"
      quotes := [value.inspect]
      underline := false }
  | .nonNumericOperand op value =>
    { template := "'" ++ op ++ "' expects numbers, got '" ++ hole ++ "'"
      quotes := [value.inspect]
      underline := false }
  | .tooManyArguments arity supplied =>
    { template := "program takes " ++ arity.toText ++ " argument" ++ plural arity ++ " but " ++
        hole ++ " were supplied"
      quotes := [supplied.toText]
      underline := false }
  | .nonContiguous indices source =>
    { template := "'" ++ hole ++ "' references arguments " ++
        ", ".intercalate (indices.map fun i => "$" ++ i.toText) ++ " but must reference $1 to $" ++
        intText indices.length
      quotes := (sourceOrTokens source).quotes
      underline := false }
  | .nestedTooDeeply stage source =>
    { template := "'" ++ hole ++ "' is nested too deeply to " ++ stage ++
        " (maximum recursion depth exceeded)"
      quotes := (sourceOrTokens source).quotes
      underline := false }
  | .unknownOperator name =>
    { template := "unknown binary operator '" ++ hole ++ "'"
      quotes := name.quotes
      internal := true }
  | .notAnExpression value =>
    { template := "cannot evaluate '" ++ hole ++ "'", quotes := [value.inspect], internal := true }
  | .notAValue word =>
    { template := "'" ++ hole ++ "' is not a number, a boolean or a name bound to a value"
      quotes := [word] }
  | .notAStatement text =>
    { template := "'" ++ hole ++ "' is not valid props grammar", quotes := [text] }
  | .secondDeclaration text =>
    { template := "'" ++ hole ++ "' contains more than one ':='"
      quotes := [text]
      start := lastOffsetOf text declareMark
      stop := lastOffsetOf text declareMark + 2 }
  | .invalidTarget text =>
    { template := "l-value of '" ++ hole ++ "' is not a valid name"
      quotes := [text]
      stop := max (offsetOf text declareMark) 1 }
  | .missingDefinition text =>
    { template := "'" ++ hole ++ "' is missing an r-value"
      quotes := [text]
      start := offsetOf text declareMark + 2
      stop := offsetOf text declareMark + 3 }
  | .missingArguments program remaining =>
    { template := "'" ++ hole ++ "' needs " ++ intText remaining ++ " more argument" ++
      plural remaining
      quotes := [program]
      underline := false }
  | .unappliedProgram text =>
    { template := "'" ++ hole ++
      "' takes arguments and was not run (bind it with ':=' and apply it)"
      quotes := [text]
      underline := false }
  | .unreadableFile path =>
    { template := "'" ++ hole ++ "' could not be opened", quotes := [path], underline := false }
  | .reservedFile => { template := "'<in>' is a reserved filename", quotes := [""] }
  | .interrupted => { template := "keyboard interrupt", quotes := [""], underline := false }
  | .unforeseen kind text =>
    { template := "unknown error: '" ++ kind ++ ": " ++ escape text ++ "'"
      quotes := [""]
      internal := true }
  | .custom draft => draft

end Fault

namespace Failure

def templateText : Template.Error → String × String
  | .noPart index =>
    ("IndexError", "Replacement index " ++ intText index ++
      " out of range for positional args tuple")
  | .noNamedPart name => ("KeyError", quoted name)
  | .nothingWithin name => ("AttributeError", "'str' object has no attribute '" ++ name ++ "'")
  | .noCharacter => ("IndexError", "string index out of range")
  | .notACharacter => ("TypeError", "string indices must be integers, not 'str'")
  | .namelessWithin => ("ValueError", "Empty attribute in format string")
  | .afterBracket =>
    ("ValueError", "Only '.' or '[' may follow ']' in format field specifier")
  | .noQuoting => ("ValueError", "end of string while looking for conversion specifier")
  | .unknownQuoting mark =>
    ("ValueError", "Unknown conversion specifier " ++
      if 32 < mark.toNat && mark.toNat < 127 then String.ofList [mark]
      else "\\x" ++ String.ofList (Nat.toDigits 16 mark.toNat))
  | .afterQuoting => ("ValueError", "expected ':' after conversion specifier")
  | .unclosedLayout => ("ValueError", "unmatched '\x7b' in format spec")
  | .longNumber => ("ValueError", "Too many decimal digits in format string")
  | .loneOpen => ("ValueError", "Single '\x7b' encountered in format string")
  | .loneClose => ("ValueError", "Single '\x7d' encountered in format string")
  | .unclosed => ("ValueError", "expected '\x7d' before end of string")
  | .nestedOpen => ("ValueError", "unexpected '\x7b' in field name")
  | .successiveAfterNumbered =>
    ("ValueError", "cannot switch from manual field specification to automatic field numbering")
  | .numberedAfterSuccessive =>
    ("ValueError", "cannot switch from automatic field numbering to manual field specification")

/-- Kind and text under which a failure that is no fault is reported. -/
def describe : Failure → String × String
  | .fault _ => ("", "")
  | .badTemplate cause => templateText cause
  | .nothingQuoted => ("IndexError", "list index out of range")
  | .overflow => ("OverflowError", "int too large to convert to float")
  | .longIndex digits =>
    ("ValueError", "Exceeds the limit (4300 digits) for integer string conversion: value has " ++
      intText digits ++ " digits; use sys.set_int_max_str_digits() to increase the limit")
  | .longInteger =>
    ("ValueError", "Exceeds the limit (4300 digits) for integer string conversion; " ++
      "use sys.set_int_max_str_digits() to increase the limit")
  | .tooDeep => ("RecursionError", "")
  | .emptyStatement => ("ValueError", "empty statement")
  | .noResult => ("IndexError", "pop from empty list")
  | .missingName name => ("KeyError", name.inspect)
  | .notAWord name => ("AttributeError", name)
  | .noWordsOn kind name =>
    ("AttributeError", "'" ++ kind ++ "' object has no attribute '" ++ name ++ "'")
  | .noValuesOn kind => ("TypeError", "'" ++ kind ++ "' object is not subscriptable")
  | .notCallable kind => ("TypeError", "'" ++ kind ++ "' object is not callable")
  | .notIterable kind => ("TypeError", "'" ++ kind ++ "' object is not iterable")
  | .noLength kind => ("TypeError", "object of type '" ++ kind ++ "' has no len()")
  | .unhashable kind => ("TypeError", "unhashable type: '" ++ kind ++ "'")
  | .notOrdered comparison kind other =>
    ("TypeError", "'" ++ comparison ++ "' not supported between instances of '" ++ kind ++
      "' and '" ++ other ++ "'")
  | .noDifference kind other =>
    ("TypeError", "unsupported operand type(s) for -: '" ++ kind ++ "' and '" ++ other ++ "'")
  | .notAnIndex what kind => ("TypeError", what ++ ", not " ++ kind)
  | .indexOutOfRange what => ("IndexError", what ++ " index out of range")
  | .hugeIndex => ("IndexError", "cannot fit 'int' into an index-sized integer")
  | .notJoined kind => ("TypeError", "can only concatenate str (not \"" ++ kind ++ "\") to str")
  | .notSearchable kind =>
    ("TypeError", "expected string or bytes-like object, got '" ++ kind ++ "'")
  | .badParameters text => ("TypeError", text)
  | .tooFewParts wanted got =>
    ("ValueError", "not enough values to unpack (expected " ++ wanted ++ ", got " ++ intText got ++
      ")")
  | .tooManyParts wanted => ("ValueError", "too many values to unpack (expected " ++ wanted ++ ")")
  | .nulInPath => ("ValueError", "embedded null byte")
  | .interrupt => ("KeyboardInterrupt", "")
  | .exit code => ("SystemExit", code)
  | .foreign kind text => (kind, text)

end Failure

end CurryCalc
