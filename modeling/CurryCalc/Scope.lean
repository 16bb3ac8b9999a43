import CurryCalc.Bindings
import CurryCalc.Writing

/-! Scopes: the values of the names bound by enclosing lets. -/
namespace CurryCalc

/-- Values by the normal form of their name. -/
abbrev Scope := Bindings Value Value

def nameKey (x : Value) : Except Failure Value :=
  match x.unhashable? with
  | some kind => .error (.unhashable kind)
  | none => .ok x.normal

namespace Scope

def find (scope : Scope) (x : Value) : Except Failure (Option Value) :=
  (nameKey x).map scope.find?

def lookup (room : Room) (scope : Scope) (x : Value) : Except Failure Value :=
  match scope.find x with
  | .error f => .error f
  | .ok (some v) => .ok v
  | .ok none => .error (.about room x (.unbound x))

end Scope

structure Binding where
  name : Value
  value : Value
deriving DecidableEq, Repr

/-- A scope that remembers how its names were given. -/
abbrev NamedScope := Bindings Value Binding

namespace NamedScope

def scope (named : NamedScope) : Scope :=
  ⟨named.entries.map fun (key, binding) => (key, binding.value)⟩

def extend (named : NamedScope) (x v : Value) : Except Failure NamedScope :=
  (nameKey x).map fun key =>
    named.insert key ⟨((named.find? key).map Binding.name).getD x, v⟩

def ofList (bindings : List (Value × Value)) : Except Failure NamedScope :=
  bindings.foldlM (fun named (x, v) => named.extend x v) Bindings.empty

def givenNames (named : NamedScope) : List Value :=
  named.entries.map fun (_, binding) => binding.name

def inspect (room : Room) (named : NamedScope) : Except Failure String :=
  match Value.unwritableAmong? room (named.entries.flatMap fun (_, b) => [b.name, b.value]) with
  | some f => .error f
  | none =>
    let entries := named.entries.map fun (_, b) => b.name.inspect ++ ": " ++ b.value.inspect
    .ok ("Environment(\x7b" ++ ", ".intercalate entries ++ "\x7d)")

/-- Whether a scope binds names as some entries do, to values that are alike. -/
def agreeOn (room : Room) (named : NamedScope) : List (Value × Binding) → Except Failure Bool
  | [] => .ok true
  | (name, x) :: rest =>
    match named.find? name with
    | none => .ok false
    | some y =>
      match x.value.alikeWithin room y.value with
      | none => .error .tooDeep
      | some true => agreeOn room named rest
      | some false => .ok false

def agree (room : Room) (a b : NamedScope) : Except Failure Bool :=
  if a.size = b.size then agreeOn room b a.entries else .ok false

end NamedScope

end CurryCalc
