import CurryCalc.Expr.Parser
import CurryCalc.Expr.Evaluate
import CurryCalc.Expr.Equality

/-! Programs, and closures that collect their arguments call by call. -/
namespace CurryCalc

structure Program where
  tree : Expr
  /-- Number of arguments; programs read from tokens never have a negative one. -/
  arity : Int
  source : String
deriving DecidableEq, Repr

namespace Program

def firstIndices (n : Nat) : List Value := (List.range n).map fun (i : Nat) => .int (i + 1)

def misnumbered [Machine] (tree : Expr) (source : String) : Failure :=
  match tree.indexClash? with
  | some clash => .ofClash clash
  | none => .raise (.levels nestingLimit) (.nonContiguous tree.argumentIndices source)

/-- Reads a program. Its placeholders have to be exactly the first ones. A sequence that cannot be
read for its nesting is quoted, if it has a text. -/
def compile [Machine] (tokens : List Token) : Except Failure Program :=
  match parse tokens with
  | .error .tooDeep =>
    .error ((unspellable? (.levels nestingLimit) tokens).getD
      (.fault (.nestedTooDeeply "parse" (sourceOf tokens))))
  | .error f => .error f
  | .ok tree =>
    let indices := tree.argumentIndices
    match tree.uncollectable? nestingLimit with
    | some f => .error f
    | none =>
      if indices.map Value.normal = firstIndices indices.length then
        .ok ⟨tree, indices.length, sourceOf tokens⟩
      else .error (misnumbered tree (sourceOf tokens))

/-- Evaluates a program on a complete list of arguments, with no name bound. -/
def run [Machine] (p : Program) (args : List Value) : Except Failure Value :=
  match p.tree.evaluate nestingLimit Bindings.empty args with
  | .error .tooDeep => .error (.fault (.nestedTooDeeply "evaluate" p.source))
  | outcome => outcome

def same [Machine] (p q : Program) : Except Failure Bool :=
  (p.tree.same q.tree).map fun same => same && p.arity == q.arity && p.source == q.source

end Program

structure Closure where
  program : Program
  arguments : List Value
deriving DecidableEq, Repr

/-- What a call gives: a value, or a closure that waits for more arguments. -/
inductive Item where
  | value (v : Value)
  | closure (c : Closure)
deriving DecidableEq, Repr

namespace Closure

def remaining (c : Closure) : Int := c.program.arity - c.arguments.length

def call [Machine] (c : Closure) (args : List Value) : Except Failure Item :=
  if c.remaining < args.length then
    .error (.fault (.tooManyArguments c.remaining args.length))
  else
    let arguments := c.arguments ++ args
    if arguments.length = c.program.arity then (c.program.run arguments).map .value
    else .ok (.closure ⟨c.program, arguments⟩)

def progress (c : Closure) : String :=
  intText c.arguments.length ++ "/" ++ intText c.program.arity ++ " arguments"

def inspect (c : Closure) : String := "<Invoker '" ++ c.program.source ++ "': " ++ c.progress ++ ">"

def compile [Machine] (tokens : List Token) : Except Failure Closure :=
  (Program.compile tokens).map fun p => ⟨p, []⟩

end Closure

end CurryCalc
