import CurryCalc.Token.Basic
import CurryCalc.Value.Members

/-! Expression trees and their traversal. -/
namespace CurryCalc

inductive Operator where
  | add
  | sub
  | eq
  | notEq
  /-- An operator without a meaning; no text is read as one. -/
  | other (name : Value)
deriving DecidableEq, Repr

def Operator.value : Operator → Value
  | .add => .text "Add"
  | .sub => .text "Sub"
  | .eq => .text "Eq"
  | .notEq => .text "NotEq"
  | .other name => name

/-- Trees read from a text have texts for names and integers for indices; others may have any
value. -/
inductive Expr where
  | number (value : Value)
  | argument (index : Value)
  | name (key : Value)
  | binary (op : Operator) (left right : Expr)
  /-- The body sees the name, and the bound expression does not. -/
  | letIn (key : Value) (bound body : Expr)
  | cond (test yes no : Expr)
  /-- A bare value in the place of an expression; no text is read as one. -/
  | foreign (value : Value)
deriving DecidableEq, Repr

namespace Expr

def children : Expr → List Expr
  | .binary _ l r => [l, r]
  | .letIn _ b e => [b, e]
  | .cond c t e => [c, t, e]
  | _ => []

def size : Expr → Nat
  | .binary _ l r => l.size + r.size + 1
  | .letIn _ b e => b.size + e.size + 1
  | .cond c t e => c.size + t.size + e.size + 1
  | _ => 1

def totalSize : List Expr → Nat
  | [] => 0
  | e :: stack => e.size + totalSize stack

theorem totalSize_append (front back : List Expr) :
    totalSize (front ++ back) = totalSize front + totalSize back := by
  induction front with
  | nil => simp [totalSize]
  | cons e front ih => simp only [List.cons_append, totalSize, ih, Nat.add_assoc]

theorem size_eq_children (e : Expr) : e.size = totalSize e.children + 1 := by
  cases e with
  | cond c t e =>
    simp only [size, totalSize, children]
    omega
  | _ => simp [size, totalSize, children]

/-- Nodes still to visit, next first; the children of a visited node go in front of the others. -/
def walkFrom : List Expr → List Expr
  | [] => []
  | e :: stack => e :: walkFrom (e.children ++ stack)
termination_by stack => totalSize stack
decreasing_by
  have h := size_eq_children e
  simp only [totalSize, totalSize_append]
  omega

/-- Every node, parents before children and children in source order. -/
def walk (e : Expr) : List Expr := walkFrom [e]

/-- The same order by recursion on the tree. -/
def preorder : Expr → List Expr
  | .binary op l r => .binary op l r :: (l.preorder ++ r.preorder)
  | .letIn x b e => .letIn x b e :: (b.preorder ++ e.preorder)
  | .cond c t e => .cond c t e :: (c.preorder ++ t.preorder ++ e.preorder)
  | e => [e]

def argument? : Expr → Option Value
  | .argument i => some i
  | _ => none

def argumentList (e : Expr) : List Value := e.walk.filterMap argument?

def argumentIndices (e : Expr) : List Value := Value.ascending e.argumentList

def indexClash? (e : Expr) : Option Clash := Value.clash? (Value.members e.argumentList)

end Expr

end CurryCalc
