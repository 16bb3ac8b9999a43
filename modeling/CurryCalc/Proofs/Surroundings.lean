import CurryCalc.Proofs.PlainMeaning
import CurryCalc.Proofs.TreeSymbols

/-! What evaluating an expression depends on. Expressions that match node by node, each in its own
scope and with its own arguments, have one outcome within every budget. So an expression sees of its
surroundings the names that are free in it and the arguments whose indices it has, and nothing
else. -/
namespace CurryCalc

namespace Expr
open Outcome

/-- The sum of terms whose values are given, by recursion on its left operand. -/
def sumOf (room : Room) (value : Expr → Except Failure Value) : Expr → Except Failure Value
  | .binary op l r =>
    if op.isAdditive then do
      let total ← sumOf room value l
      let v ← value r
      op.apply room total v
    else value (.binary op l r)
  | e => value e

theorem sumOf_of_isChain_eq_false {e : Expr} (h : e.isChain = false) (room : Room)
    (value : Expr → Except Failure Value) : sumOf room value e = value e := by
  cases e with
  | binary op l r =>
    have hop : op.isAdditive = false := h
    simp [sumOf, hop]
  | _ => rfl

/-- Folding the terms on the spine of a sum gives what descending into it gives. -/
theorem sumOf_spine (room : Room) (value : Expr → Except Failure Value) (e : Expr)
    (terms : List (Operator × Expr)) :
    (sumOf room value e >>= fun total => foldTerms room value total terms) =
      value (spine e terms).1 >>= fun total => foldTerms room value total (spine e terms).2 := by
  fun_induction spine e terms with
  | case1 l r terms ih => simpa [sumOf, Operator.isAdditive, foldTerms_cons] using ih
  | case2 l r terms ih => simpa [sumOf, Operator.isAdditive, foldTerms_cons] using ih
  | case3 e terms hadd hsub => rw [sumOf_of_isChain_eq_false (isChain_eq_false hadd hsub)]

theorem evaluate_eq_sumOf {op : Operator} (h : op.isAdditive) (n : Nat) (l r : Expr) (scope : Scope)
    (args : List Value) :
    (binary op l r).evaluate (n + 1) scope args =
      sumOf (.levels n) (fun t => t.evaluate n scope args) (.binary op l r) := by
  have hspine := sumOf_spine (.levels n) (fun t => t.evaluate n scope args) (.binary op l r) []
  rw [evaluate_sum h]
  refine hspine.symm.trans ?_
  cases sumOf (.levels n) (fun t => t.evaluate n scope args) (.binary op l r) <;> rfl

/-- Two expressions, each in its scope and with its arguments, that match node by node. Where their
leaves differ, these have one outcome within every budget. -/
inductive Matches (args args' : List Value) : Expr → Scope → Expr → Scope → Prop
  | leaf {e e' : Expr} {scope scope' : Scope} : e.isChain = false → e'.isChain = false →
      (∀ n, e.evaluate (n + 1) scope args = e'.evaluate (n + 1) scope' args') →
      Matches args args' e scope e' scope'
  | binary {op : Operator} {l r l' r' : Expr} {scope scope' : Scope} :
      Matches args args' l scope l' scope' → Matches args args' r scope r' scope' →
      Matches args args' (.binary op l r) scope (.binary op l' r') scope'
  | letIn {x : Value} {bound body bound' body' : Expr} {scope scope' : Scope} :
      Matches args args' bound scope bound' scope' →
      (∀ key v, nameKey x = .ok key →
        Matches args args' body (scope.insert key v) body' (scope'.insert key v)) →
      Matches args args' (.letIn x bound body) scope (.letIn x bound' body') scope'
  | cond {test yes no test' yes' no' : Expr} {scope scope' : Scope} :
      Matches args args' test scope test' scope' → Matches args args' yes scope yes' scope' →
      Matches args args' no scope no' scope' →
      Matches args args' (.cond test yes no) scope (.cond test' yes' no') scope'

namespace Matches

variable {args args' : List Value} {e e' : Expr} {scope scope' : Scope}

theorem sumOf_eq {n : Nat}
    (hterms : ∀ {e e' : Expr} {scope scope' : Scope}, Matches args args' e scope e' scope' →
      e.evaluate n scope args = e'.evaluate n scope' args')
    (h : Matches args args' e scope e' scope') :
    sumOf (.levels n) (fun t => t.evaluate n scope args) e =
      sumOf (.levels n) (fun t => t.evaluate n scope' args') e' := by
  induction h with
  | leaf hchain hchain' he =>
    rw [sumOf_of_isChain_eq_false hchain, sumOf_of_isChain_eq_false hchain']
    exact hterms (.leaf hchain hchain' he)
  | @binary op l r l' r' scope scope' hl hr ihl _ =>
    by_cases hop : op.isAdditive
    · simp only [sumOf, hop, if_true, ihl, hterms hr]
    · simp only [sumOf, hop, Bool.false_eq_true, if_false]
      exact hterms (.binary hl hr)
  | letIn hbound hbody => exact hterms (.letIn hbound hbody)
  | cond htest hyes hno => exact hterms (.cond htest hyes hno)

theorem evaluate_eq (h : Matches args args' e scope e' scope') (n : Nat) :
    e.evaluate n scope args = e'.evaluate n scope' args' := by
  induction n generalizing e e' scope scope' with
  | zero => rfl
  | succ n ih =>
    cases h with
    | leaf _ _ he => exact he n
    | @binary op l r l' r' _ _ hl hr =>
      by_cases hop : op.isAdditive
      · rw [evaluate_eq_sumOf hop, evaluate_eq_sumOf hop]
        exact sumOf_eq ih (.binary hl hr)
      · rw [evaluate, evaluate, if_neg hop, if_neg hop, ih hl, ih hr]
    | @letIn x bound body bound' body' _ _ hbound hbody =>
      rw [evaluate, evaluate, ih hbound]
      congr 1
      funext v
      cases hkey : nameKey x with
      | error f => rfl
      | ok key => exact ih (hbody key v hkey)
    | cond htest hyes hno =>
      rw [evaluate, evaluate, ih htest]
      congr 1
      funext v
      cases v with
      | bool b => cases b with
        | true => exact ih hyes
        | false => exact ih hno
      | _ => rfl

end Matches

end Expr

section Reading

variable {args args' : List Value} {scope scope' : Scope}

theorem Value.normal_of_toInt? {i : Value} {n : Int} (h : i.toInt? = some n) :
    i.normal = .int n := by
  cases i <;> simp_all [toInt?, normal]

/-- An index is looked up among the arguments at its own place; else only their number counts. -/
theorem argumentAt_congr {i : Value} (hlength : args.length = args'.length)
    (h : ∀ k : Nat, i.normal = .int (k + 1 : Nat) → args[k]? = args'[k]?) (room : Room) :
    argumentAt room args i = argumentAt room args' i := by
  unfold argumentAt
  cases hint : i.toInt? with
  | none => cases i.position? <;> simp only [hlength]
  | some n =>
    have hnormal := Value.normal_of_toInt? hint
    have hplace : (if 1 ≤ n then args[(n - 1).toNat]? else none) =
        if 1 ≤ n then args'[(n - 1).toNat]? else none := by
      split
      next hpos =>
        apply h
        rw [hnormal]
        congr 1
        omega
      · rfl
    simp only [argumentAtInt, hplace, hlength]

theorem key_eq_normal {x key : Value} (h : nameKey x = .ok key) : key = x.normal := by
  unfold nameKey at h
  split at h
  · cases h
  · exact (Except.ok.inj h).symm

namespace Scope

theorem lookup_congr {x : Value} (h : scope.find x = scope'.find x) (room : Room) :
    scope.lookup room x = scope'.lookup room x := by
  unfold lookup
  rw [h]

theorem find_of_pointwise (h : ∀ key, scope.find? key = scope'.find? key) (x : Value) :
    scope.find x = scope'.find x := by
  simp only [find, funext h]

theorem find_insert {x key : Value} (hx : nameKey x = .ok key) (scope : Scope) (v y : Value) :
    find (scope.insert key v) y =
      if y.normal = x.normal then (nameKey y).map fun _ => some v else scope.find y := by
  have hkey := key_eq_normal hx
  unfold find
  cases hy : nameKey y with
  | error f => simp [Except.map]
  | ok other =>
    have hother := key_eq_normal hy
    subst hkey hother
    simp only [Except.map, Bindings.find?_insert, eq_comm]
    split <;> rfl

end Scope

end Reading

namespace Expr

/-- Two scopes and two lists of arguments give an expression the same for each name that is free in
it and for each of its indices. -/
structure Agree (e : Expr) (scope scope' : Scope) (args args' : List Value) : Prop where
  names : ∀ x ∈ e.freeNames, scope.find x = scope'.find x
  arguments : ∀ i ∈ e.argumentList, ∀ room, argumentAt room args i = argumentAt room args' i

namespace Agree

variable {args args' : List Value} {scope scope' : Scope}

theorem child {e c : Expr} (h : e.Agree scope scope' args args') (hc : c ∈ e.children)
    {inner inner' : Scope} (hnames : ∀ x ∈ c.freeNames, inner.find x = inner'.find x) :
    c.Agree inner inner' args args' := by
  refine ⟨hnames, fun i hi => h.arguments i ?_⟩
  rw [argumentList_eq]
  exact List.mem_append_right _ (List.mem_flatMap.2 ⟨c, hc, hi⟩)

theorem binary {op : Operator} {l r : Expr}
    (h : (Expr.binary op l r).Agree scope scope' args args') :
    l.Agree scope scope' args args' ∧ r.Agree scope scope' args args' := by
  constructor
  · exact h.child (by simp [children]) fun x hx => h.names x (by simp [freeNames, hx])
  · exact h.child (by simp [children]) fun x hx => h.names x (by simp [freeNames, hx])

theorem cond {test yes no : Expr} (h : (Expr.cond test yes no).Agree scope scope' args args') :
    test.Agree scope scope' args args' ∧ yes.Agree scope scope' args args' ∧
      no.Agree scope scope' args args' := by
  refine ⟨?_, ?_, ?_⟩
  · exact h.child (by simp [children]) fun x hx => h.names x (by simp [freeNames, hx])
  · exact h.child (by simp [children]) fun x hx => h.names x (by simp [freeNames, hx])
  · exact h.child (by simp [children]) fun x hx => h.names x (by simp [freeNames, hx])

/-- In the body of a let, scopes agree on the name that it binds whether they did before or not. -/
theorem letIn {x : Value} {bound body : Expr}
    (h : (Expr.letIn x bound body).Agree scope scope' args args') :
    bound.Agree scope scope' args args' ∧ ∀ key v, nameKey x = .ok key →
      body.Agree (scope.insert key v) (scope'.insert key v) args args' := by
  constructor
  · exact h.child (by simp [children]) fun y hy => h.names y (by simp [freeNames, hy])
  · intro key v hkey
    apply h.child (by simp [children])
    intro y hy
    rw [Scope.find_insert hkey, Scope.find_insert hkey]
    split
    · rfl
    next hne => exact h.names y (by simp [freeNames, hy, hne])

theorem matches_self {e : Expr} (h : e.Agree scope scope' args args') :
    Matches args args' e scope e scope' := by
  induction e generalizing scope scope' with
  | number v => exact .leaf rfl rfl fun _ => rfl
  | argument i =>
    have hi := h.arguments i (mem_argumentList_of_symbol List.mem_cons_self)
    exact .leaf rfl rfl fun n => hi (.levels n)
  | name x =>
    have hx := Scope.lookup_congr (h.names x List.mem_cons_self)
    exact .leaf rfl rfl fun n => hx (.levels n)
  | binary op l r ihl ihr => exact .binary (ihl h.binary.1) (ihr h.binary.2)
  | letIn x bound body ihb ihe =>
    obtain ⟨hbound, hbody⟩ := h.letIn
    exact .letIn (ihb hbound) fun key v hkey => ihe (hbody key v hkey)
  | cond test yes no ihc iht ihe =>
    obtain ⟨htest, hyes, hno⟩ := h.cond
    exact .cond (ihc htest) (iht hyes) (ihe hno)
  | foreign v => exact .leaf rfl rfl fun _ => rfl

/-- The indices of a tree are those of its set of indices, up to their normal form. -/
theorem of_indices {e : Expr} (hnames : ∀ x ∈ e.freeNames, scope.find x = scope'.find x)
    (hlength : args.length = args'.length)
    (hargs : ∀ i ∈ e.argumentIndices, ∀ k : Nat, i.normal = .int (k + 1 : Nat) →
      args[k]? = args'[k]?) : e.Agree scope scope' args args' := by
  refine ⟨hnames, fun i hi => argumentAt_congr hlength fun k hk => ?_⟩
  obtain ⟨u, hu, hnormal⟩ := Value.mem_ascending hi
  exact hargs u hu k (hnormal.trans hk)

theorem of_pointwise (e : Expr) (h : ∀ key, scope.find? key = scope'.find? key)
    (args : List Value) :
    e.Agree scope scope' args args :=
  ⟨fun x _ => Scope.find_of_pointwise h x, fun _ _ _ => rfl⟩

end Agree

/-- Evaluation sees of a scope the names that are free in the tree, and of the arguments their
number and those whose indices the tree has: where two scopes and two lists agree on these, the
outcome is the same value or the same failure within every budget. So it does not matter how
bindings are ordered and which others they hide, whether more names are bound, and what the unused
arguments are. -/
theorem evaluate_eq_of_agreement (e : Expr) (n : Nat) (scope : Scope) (args : List Value) :
    (∀ scope' args', (∀ x ∈ e.freeNames, scope.find x = scope'.find x) →
      args.length = args'.length →
      (∀ i ∈ e.argumentIndices, ∀ k : Nat, i.normal = .int (k + 1 : Nat) → args[k]? = args'[k]?) →
      e.evaluate n scope args = e.evaluate n scope' args') ∧
    (∀ scope' : Scope, (∀ key, scope.find? key = scope'.find? key) →
      e.evaluate n scope args = e.evaluate n scope' args) ∧
    (∀ x key v, nameKey x = .ok key → (∀ y ∈ e.freeNames, y.normal ≠ x.normal) →
      e.evaluate n (scope.insert key v) args = e.evaluate n scope args) ∧
    (∀ (k : Nat) v, (∀ i ∈ e.argumentIndices, i.normal ≠ .int (k + 1 : Nat)) →
      e.evaluate n scope (args.set k v) = e.evaluate n scope args) := by
  refine ⟨fun scope' args' hnames hlength hargs => ?_, fun scope' h => ?_,
    fun x key v hkey hx => ?_, fun k v hk => ?_⟩
  · exact (Agree.of_indices hnames hlength hargs).matches_self.evaluate_eq n
  · exact (Agree.of_pointwise e h args).matches_self.evaluate_eq n
  · refine (Agree.of_indices (fun y hy => ?_) rfl fun _ _ _ _ => rfl).matches_self.evaluate_eq n
    rw [Scope.find_insert hkey, if_neg (hx y hy)]
  · refine
      (Agree.of_indices (fun _ _ => rfl) (by simp) fun i hi j hj => ?_).matches_self.evaluate_eq n
    have hne : k ≠ j := by
      rintro rfl
      exact hk i hi hj
    exact List.getElem?_set_ne hne

/-- A let hides `x`, `y` alone is free, and only the second argument is asked for: an `x` outside
the let, one more name and other arguments around the second change nothing. -/
theorem evaluate_eq_of_agreement_hidden :
    let e : Expr := .binary .add (.letIn "x" (.argument (.int 2))
      (.binary .sub (.name "x") (.name "y"))) (.argument (.int 2))
    let scope : Scope := ⟨[("x", .bool true), ("y", .int 1)]⟩
    let scope' : Scope := ⟨[("z", .nothing), ("y", .int 1)]⟩
    let args : List Value := [.int 7, .int 5, .nothing]
    let args' : List Value := [.bool true, .int 5, .int 8]
    e.freeNames = [.text "y"] ∧ e.argumentIndices = [.int 2] ∧
      e.evaluate 4 scope args = e.evaluate 4 scope' args' ∧
      (e.evaluate 4 scope' args').toOption = some (.float (.ofInt 9)) := by
  intro e scope scope' args args'
  have hnames : e.freeNames = [.text "y"] := by decide +kernel
  have hindices : e.argumentIndices = [.int 2] := by decide +kernel
  refine ⟨hnames, hindices, ?_, by decide +kernel⟩
  apply (evaluate_eq_of_agreement e 4 scope args).1 scope' args'
  · rw [hnames]
    intro x hx
    obtain rfl := List.mem_singleton.1 hx
    rfl
  · rfl
  · rw [hindices]
    intro i hi k hk
    obtain rfl := List.mem_singleton.1 hi
    obtain rfl : k = 1 := by
      simp only [Value.normal, Value.int.injEq] at hk
      omega
    rfl

end Expr

end CurryCalc
