import CurryCalc.Program
import CurryCalc.Proofs.Outcome

/-! The nodes of a tree and the indices found there. A walk with a stack visits the nodes in the
order that recursion gives, so that what is collected on it can be computed node by node; the
indices of a program that compiles are, up to their normal form, the first ones. -/
namespace CurryCalc

namespace Expr

/-- What holds of a node if it holds of its children holds of every tree. -/
@[elab_as_elim]
theorem induction_children {motive : Expr → Prop}
    (node : ∀ e, (∀ c ∈ e.children, motive c) → motive e) (e : Expr) : motive e := by
  induction e with
  | binary op l r ihl ihr => exact node _ (by simp [children, ihl, ihr])
  | letIn x b e ihb ihe => exact node _ (by simp [children, ihb, ihe])
  | cond c t e ihc iht ihe => exact node _ (by simp [children, ihc, iht, ihe])
  | _ => exact node _ (by simp [children])

theorem preorder_eq (e : Expr) : e.preorder = e :: e.children.flatMap preorder := by
  cases e <;> simp [preorder, children]

/-- The walk does with its stack what recursion does with each tree on it. -/
theorem walkFrom_eq_flatMap (stack : List Expr) : walkFrom stack = stack.flatMap preorder := by
  fun_induction walkFrom stack with
  | case1 => rfl
  | case2 e stack ih => rw [ih, List.flatMap_append, List.flatMap_cons, preorder_eq e]; rfl

theorem walk_eq_preorder (e : Expr) : e.walk = e.preorder := by
  simp [walk, walkFrom_eq_flatMap]

theorem walk_eq (e : Expr) : e.walk = e :: e.children.flatMap walk := by
  have hwalk : walk = preorder := funext walk_eq_preorder
  rw [hwalk]
  exact preorder_eq e

/-- The walk takes one level, however long it is. -/
theorem walkWithin_succ (n : Nat) (stack : List Expr) :
    walkWithin (n + 1) stack = .ok (walkFrom stack) := by
  fun_induction walkFrom stack with
  | case1 => rw [walkWithin]
  | case2 e stack ih => rw [walkWithin, ih]; rfl

theorem argumentList_eq (e : Expr) :
    e.argumentList = e.argument?.toList ++ e.children.flatMap argumentList := by
  have hchildren :
      (e.children.flatMap walk).filterMap argument? = e.children.flatMap argumentList :=
    List.filterMap_flatMap
  rw [argumentList, walk_eq, List.filterMap_cons, hchildren]
  cases e.argument? <;> rfl

end Expr

namespace Value

mutual

/-- Whether a value can be a name or a member of a set is a matter of its normal form. -/
theorem unhashable?_normal : (v : Value) → v.normal.unhashable? = v.unhashable?
  | .bool b => rfl
  | .int n => rfl
  | .float x => by
    rw [normal]
    cases x.toInt? <;> rfl
  | .undefined handle => rfl
  | .text s => rfl
  | .nothing => rfl
  | .list items => rfl
  | .tuple items => by
    rw [normal, unhashable?, unhashable?, unhashableAmong?_normalAll items]
  | .set items => rfl
  | .token kind v lexeme => by
    rw [normal, unhashable?, unhashable?, unhashable?_normal v]
  | .object handle kind label => rfl

theorem unhashableAmong?_normalAll : (vs : List Value) →
    unhashableAmong? (normalAll vs) = unhashableAmong? vs
  | [] => rfl
  | v :: vs => by
    rw [normalAll, unhashableAmong?, unhashableAmong?, unhashable?_normal v,
      unhashableAmong?_normalAll vs]

end

theorem mem_insertAscending_self (v : Value) (values : List Value) :
    v ∈ insertAscending v values := by
  fun_induction insertAscending v values with
  | case1 => simp
  | case2 => simp
  | case3 => simp
  | case4 w rest _ _ ih => exact List.mem_cons_of_mem w ih

/-- A value makes way only for one with the same normal form. -/
theorem mem_insertAscending_of_mem {w : Value} {values : List Value} (h : w ∈ values) (v : Value) :
    ∃ u ∈ insertAscending v values, u.normal = w.normal := by
  fun_induction insertAscending v values with
  | case1 => cases h
  | case2 x rest _ => exact ⟨w, List.mem_cons_of_mem v h, rfl⟩
  | case3 x rest _ halike =>
    rcases List.mem_cons.1 h with rfl | hrest
    · exact ⟨v, List.mem_cons_self, halike⟩
    · exact ⟨w, List.mem_cons_of_mem v hrest, rfl⟩
  | case4 x rest _ _ ih =>
    rcases List.mem_cons.1 h with rfl | hrest
    · exact ⟨w, List.mem_cons_self, rfl⟩
    · obtain ⟨u, hu, hnormal⟩ := ih hrest
      exact ⟨u, List.mem_cons_of_mem x hu, hnormal⟩

theorem mem_ascending {w : Value} {values : List Value} (h : w ∈ values) :
    ∃ u ∈ ascending values, u.normal = w.normal := by
  induction values with
  | nil => cases h
  | cons v rest ih =>
    rcases List.mem_cons.1 h with rfl | hrest
    · exact ⟨w, mem_insertAscending_self w _, rfl⟩
    · obtain ⟨u, hu, hnormal⟩ := ih hrest
      obtain ⟨t, ht, hsame⟩ := mem_insertAscending_of_mem hu v
      exact ⟨t, ht, hsame.trans hnormal⟩

end Value

namespace Program

theorem mem_firstIndices {n : Nat} {v : Value} :
    v ∈ firstIndices n ↔ ∃ k < n, v = .int (k + 1 : Nat) := by
  simp [firstIndices, eq_comm]

section Compiling

variable [Machine]

/-- What compiling checks, and what it gives. -/
theorem compile_eq_ok_iff {tokens : List Token} {p : Program} :
    compile tokens = .ok p ↔ parse tokens = .ok p.tree ∧ p.tree.uncollectable? nestingLimit = none ∧
      p.tree.argumentIndices.map Value.normal = firstIndices p.tree.argumentIndices.length ∧
      p.arity = p.tree.argumentIndices.length ∧ p.source = sourceOf tokens := by
  constructor
  · intro h
    unfold compile at h
    split at h
    · cases h
    · cases h
    next tree hparse =>
      dsimp only at h
      split at h
      · cases h
      next hcollect =>
        split at h
        next hfirst =>
          cases h
          exact ⟨hparse, hcollect, hfirst, rfl, rfl⟩
        · cases h
  · obtain ⟨tree, arity, source⟩ := p
    dsimp only
    rintro ⟨hparse, hcollect, hfirst, rfl, rfl⟩
    simp only [compile, hparse, hcollect]
    exact if_pos hfirst

theorem compile_of_unspellable {tokens : List Token} {f : Failure}
    (h : unspellable? (.levels nestingLimit) tokens = some f) : compile tokens = .error f := by
  unfold compile parse
  rw [h]
  cases f <;> rfl

theorem argument_in_range {tokens : List Token} {p : Program} (h : compile tokens = .ok p)
    {i : Value} (hi : i ∈ p.tree.argumentList) :
    ∃ k : Nat, (k : Int) < p.arity ∧ i.normal = .int (k + 1 : Nat) := by
  obtain ⟨_, _, hfirst, harity, _⟩ := compile_eq_ok_iff.1 h
  obtain ⟨u, hu, hnormal⟩ := Value.mem_ascending hi
  have hmem : u.normal ∈ firstIndices p.tree.argumentIndices.length :=
    hfirst ▸ List.mem_map_of_mem hu
  obtain ⟨k, hk, hindex⟩ := mem_firstIndices.1 hmem
  exact ⟨k, by omega, hnormal ▸ hindex⟩

end Compiling

end Program
end CurryCalc
