import CurryCalc.Proofs.Surroundings

/-! Lets as substitutions. Binding a name to a value does what putting the value in the place of the
name does, for every expression and whatever comes of it: a value, a failure, or too much
nesting. -/
namespace CurryCalc

theorem nameKey_congr {x y : Value} (h : y.normal = x.normal) : nameKey y = nameKey x := by
  have hkind : y.unhashable? = x.unhashable? := by
    rw [← Value.unhashable?_normal, h, Value.unhashable?_normal]
  rw [nameKey, nameKey, hkind, h]

/-- Binding a name and changing what names are bound to do not depend on their order. -/
theorem Bindings.insertIn_map {κ α β : Type} [DecidableEq κ] (f : α → β) (name : κ) (a : α)
    (entries : List (κ × α)) :
    (insertIn name a entries).map (fun (n, b) => (n, f b)) =
      insertIn name (f a) (entries.map fun (n, b) => (n, f b)) := by
  induction entries with
  | nil => rfl
  | cons entry rest ih =>
    obtain ⟨n, old⟩ := entry
    by_cases hn : n = name
    · simp [insertIn, hn]
    · simp [insertIn, hn, ih]

namespace NamedScope

theorem scope_of_extend {named extended : NamedScope} {x v : Value}
    (h : named.extend x v = .ok extended) :
    ∃ key, nameKey x = .ok key ∧ extended.scope = named.scope.insert key v := by
  obtain ⟨key, hkey, rfl⟩ := Outcome.ok_of_map h
  exact ⟨key, hkey, congrArg Bindings.mk (Bindings.insertIn_map Binding.value key _ named.entries)⟩

end NamedScope

namespace Expr

/-- Puts a value in the place of a name, except where a let binds the name again: in its body. -/
def subst (x v : Value) : Expr → Expr
  | .name y => if y.normal = x.normal then .number v else .name y
  | .binary op l r => .binary op (l.subst x v) (r.subst x v)
  | .letIn y bound body =>
    .letIn y (bound.subst x v) (if y.normal = x.normal then body else body.subst x v)
  | .cond test yes no => .cond (test.subst x v) (yes.subst x v) (no.subst x v)
  | e => e

section Substitution

variable {x key : Value} (hkey : nameKey x = .ok key) (v : Value) (args : List Value)
include hkey

theorem lookup_insert_self {y : Value} (h : y.normal = x.normal) (room : Room) (scope : Scope) :
    Scope.lookup room (scope.insert key v) y = .ok v := by
  rw [Scope.lookup, Scope.find_insert hkey, if_pos h, nameKey_congr h, hkey]
  rfl

theorem lookup_insert_of_ne {y : Value} (h : y.normal ≠ x.normal) (room : Room) (scope : Scope) :
    Scope.lookup room (scope.insert key v) y = scope.lookup room y := by
  refine Scope.lookup_congr ?_ room
  rw [Scope.find_insert hkey, if_neg h]

/-- With the name bound, an expression matches itself with the value put in. The scopes are compared
by what is found in them, since lets bind names in another order. -/
theorem matches_subst (e : Expr) {scope scope' : Scope}
    (h : ∀ k, scope.find? k = (scope'.insert key v).find? k) :
    Matches args args e scope (e.subst x v) scope' := by
  induction e generalizing scope scope' with
  | number w => exact .leaf rfl rfl fun _ => rfl
  | argument i => exact .leaf rfl rfl fun _ => rfl
  | name y =>
    have hlookup (room : Room) : scope.lookup room y = Scope.lookup room (scope'.insert key v) y :=
      Scope.lookup_congr (Scope.find_of_pointwise h y) room
    rw [subst]
    split
    next hy => exact .leaf rfl rfl fun _ => (hlookup _).trans (lookup_insert_self hkey v hy _ _)
    next hy => exact .leaf rfl rfl fun _ => (hlookup _).trans (lookup_insert_of_ne hkey v hy _ _)
  | binary op l r ihl ihr => exact .binary (ihl h) (ihr h)
  | letIn y bound body ihb ihe =>
    refine .letIn (ihb h) fun other w hother => ?_
    have hk := key_eq_normal hkey
    have ho := key_eq_normal hother
    split
    next hy =>
      -- The let binds the name again, so that its body sees neither `v` nor what was bound before.
      refine (Agree.of_pointwise body (fun k => ?_) args).matches_self
      simp only [Bindings.find?_insert, h]
      grind
    next hy =>
      apply ihe
      intro k
      simp only [Bindings.find?_insert, h]
      grind
  | cond test yes no ihc iht ihe => exact .cond (ihc h) (iht h) (ihe h)
  | foreign w => exact .leaf rfl rfl fun _ => rfl

theorem evaluate_insert (e : Expr) (n : Nat) (scope : Scope) :
    e.evaluate n (scope.insert key v) args = (e.subst x v).evaluate n scope args :=
  (matches_subst hkey v args e fun _ => rfl).evaluate_eq n

end Substitution

/-- A let is a substitution. Where a scope is extended, an expression has the outcome, within every
budget, that it has in the scope before with the value put in the place of the name. So a let
evaluates its bound expression and then its body with that value put in; and where the name was
bound before, the bound expression sees the value from outside, and the body its own. -/
theorem let_is_substitution (x v : Value) (n : Nat) (args : List Value) :
    (∀ (e : Expr) (env extended : NamedScope), env.extend x v = .ok extended →
      e.evaluate n extended.scope args = (e.subst x v).evaluate n env.scope args) ∧
    (∀ (bound body : Expr) (scope : Scope),
      (letIn x bound body).evaluate (n + 1) scope args = do
        let w ← bound.evaluate n scope args
        let _ ← nameKey x
        (body.subst x w).evaluate n scope args) ∧
    (∀ (bound body : Expr) (env extended : NamedScope), env.extend x v = .ok extended →
      (letIn x bound body).evaluate (n + 1) extended.scope args = do
        let w ← (bound.subst x v).evaluate n env.scope args
        (body.subst x w).evaluate n env.scope args) := by
  refine ⟨fun e env extended h => ?_, fun bound body scope => ?_,
    fun bound body env extended h => ?_⟩
  · obtain ⟨key, hkey, hscope⟩ := NamedScope.scope_of_extend h
    rw [hscope, evaluate_insert hkey]
  · rw [evaluate]
    congr 1
    funext w
    cases hkey : nameKey x with
    | error f => rfl
    | ok key => exact evaluate_insert hkey w args body n scope
  · obtain ⟨key, hkey, hscope⟩ := NamedScope.scope_of_extend h
    rw [evaluate, hscope, evaluate_insert hkey]
    congr 1
    funext w
    rw [hkey, Outcome.bind_ok, Bindings.insert_insert, evaluate_insert hkey]

/-- A let that binds `x` again, by an expression with `x` in it, and `x` after it. -/
theorem let_is_substitution_shadowing :
    let e : Expr := .binary .add (.letIn "x" (.binary .add (.name "x") (.number (.int 1)))
      (.name "x")) (.name "x")
    let e' : Expr := .binary .add (.letIn "x" (.binary .add (.number (.int 10)) (.number (.int 1)))
      (.name "x")) (.number (.int 10))
    let extended : NamedScope := ⟨[("x", ⟨"x", .int 10⟩)]⟩
    NamedScope.extend Bindings.empty "x" (.int 10) = .ok extended ∧ e.subst "x" (.int 10) = e' ∧
      e.evaluate 4 extended.scope [] = e'.evaluate 4 Bindings.empty [] ∧
      (e.evaluate 4 extended.scope []).toOption = some (.float (.ofInt 21)) := by
  intro e e' extended
  have hextend : NamedScope.extend Bindings.empty "x" (.int 10) = .ok extended := rfl
  have hsubst : e.subst "x" (.int 10) = e' := by decide +kernel
  have hempty : NamedScope.scope Bindings.empty = Bindings.empty := rfl
  have hsame := (let_is_substitution "x" (.int 10) 4 []).1 e _ extended hextend
  rw [hsubst, hempty] at hsame
  exact ⟨hextend, hsubst, hsame, by decide +kernel⟩

end Expr

end CurryCalc
