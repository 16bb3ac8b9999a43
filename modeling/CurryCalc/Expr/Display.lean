import CurryCalc.Expr.Basic
import CurryCalc.Writing

/-! Indented listings of expression trees, and the argument indices that are in them. -/
namespace CurryCalc

namespace Expr

/-- The name under which the kind of a node appears in listings; a bare value is no node. -/
def kind : Expr → String
  | .number _ => "NumberLiteral"
  | .argument _ => "ArgumentRef"
  | .name _ => "IdentifierRef"
  | .binary _ _ _ => "BinaryOp"
  | .letIn _ _ _ => "Let"
  | .cond _ _ _ => "If"
  | .foreign v => v.kind

def fields : Expr → String
  | .number v => "value=" ++ v.inspect
  | .argument i => "index=" ++ i.toText
  | .name x => "name='" ++ x.toText ++ "'"
  | .binary op _ _ => "kind=" ++ op.value.toText
  | .letIn x _ _ => "name='" ++ x.toText ++ "'"
  | .cond _ _ _ => ""
  | .foreign _ => ""

/-- What keeps a node from being listed: a value in it that cannot be written, or that it is
none. -/
def unlistable? (room : Room) : Expr → Option Failure
  | .number v => v.unwritable? room
  | .argument i => i.unwritable? room
  | .name x => x.unwritable? room
  | .binary op _ _ => op.value.unwritable? room
  | .letIn x _ _ => x.unwritable? room
  | .cond _ _ _ => none
  | .foreign v => some (.noWordsOn v.kind "display")

def indentation (level : Nat) : String := String.ofList (List.replicate (4 * level) ' ')

/-- One line for each node, and one for each bracket that closes a list of children. -/
def displayAt : Nat → Nat → Expr → Except Failure String
  | 0, _, _ => .error .tooDeep
  | budget + 1, level, e =>
    let opening := indentation level ++ e.kind ++ "(" ++ e.fields
    match e.unlistable? (.levels budget), e.children with
    | some f, _ => .error f
    | none, [] => .ok (opening ++ ")")
    | none, children =>
      match children.mapM (displayAt budget (level + 1)) with
      | .error f => .error f
      | .ok parts =>
        let separator := if e.fields.isEmpty then "" else ", "
        .ok (opening ++ separator ++ "nodes=[\n" ++ ",\n".intercalate parts ++ "\n" ++
          indentation level ++ "])")

def display [Machine] (e : Expr) : Except Failure String := displayAt nestingLimit 0 e

/-- The nodes of the trees on a stack, visited in a loop. Asking a node for its children is a call;
the loop nests none. -/
def walkWithin (budget : Nat) : List Expr → Except Failure (List Expr)
  | [] => .ok []
  | e :: stack =>
    match budget with
    | 0 => .error .tooDeep
    | _ + 1 => (walkWithin budget (e.children ++ stack)).map (e :: ·)
termination_by stack => totalSize stack
decreasing_by
  have h := size_eq_children e
  simp only [totalSize, totalSize_append]
  omega

/-- What is wrong with a node whose children and argument index are asked for: a bare value has no
nodes, and some values cannot be members of a set. -/
def trouble? : Expr → Option Failure
  | .foreign v => some (.noWordsOn v.kind "nodes")
  | .argument i => i.unhashable?.map .unhashable
  | _ => none

def uncollectable? (budget : Nat) (e : Expr) : Option Failure :=
  match e, walkWithin budget [e] with
  | .foreign v, _ => some (.noWordsOn v.kind "walk")
  | _, .error f => some f
  | _, .ok nodes => nodes.findSome? trouble?

def listedIndices [Machine] (e : Expr) : Except Failure (List Value) :=
  match e.uncollectable? nestingLimit, e.indexClash? with
  | some f, _ => .error f
  | none, some clash => .error (.ofClash clash)
  | none, none => .ok e.argumentIndices

end Expr

end CurryCalc
