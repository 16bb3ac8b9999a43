import CurryCalc.Expr.Evaluate
import CurryCalc.Proofs.Grammar

/-! Writing trees out as symbols. Reading undoes writing, and every tree that was read is a layered
one: each node stands at a place whose layer of the grammar has it. -/
namespace CurryCalc

def Operator.keyword : Operator → Keyword
  | .add => .plus
  | .sub => .minus
  | .eq => .eq
  | .notEq => .neq
  | .other name => .other name

def Operator.isComparison : Operator → Bool
  | .eq | .notEq => true
  | _ => false

namespace Expr

/-- The symbols of a tree in source order, keywords included. A bare value has none. -/
def unparse : Expr → List Symbol
  | .number v => [.number v]
  | .argument i => [.placeholder i]
  | .name x => [.name x]
  | .binary op l r => l.unparse ++ .keyword op.keyword :: r.unparse
  | .letIn x b e => .keyword .letWord :: .name x :: (b.unparse ++ .keyword .inWord :: e.unparse)
  | .cond c t e => .keyword .ifWord :: (c.unparse ++ .keyword .thenWord ::
      (t.unparse ++ .keyword .elseWord :: e.unparse))
  | .foreign _ => []

def isLeaf : Expr → Bool
  | .number _ | .argument _ | .name _ => true
  | _ => false

/-- Leaves joined by additions and subtractions that lean to the left. -/
def isSum : Expr → Bool
  | .binary op l r => op.isAdditive && l.isSum && r.isLeaf
  | e => e.isLeaf

/-- Sums joined by comparisons that lean to the right. -/
def isEquality : Expr → Bool
  | .binary op l r => isSum (.binary op l r) || op.isComparison && l.isSum && r.isEquality
  | e => e.isLeaf

def isConditional : Expr → Bool
  | .cond c t e => c.isConditional && t.isConditional && e.isConditional
  | e => e.isEquality

/-- A tree in which lets are only at the root and directly in lets, conditionals only there and
directly in conditionals, comparisons have a sum on their left and no let or conditional on their
right, and terms after the first of a sum are leaves. -/
def isLayered : Expr → Bool
  | .letIn _ b e => b.isLayered && e.isLayered
  | e => e.isConditional

end Expr

namespace Grammar

def Layer.has : Layer → Expr → Bool
  | .operand => Expr.isLeaf
  | .sum => Expr.isSum
  | .equality => Expr.isEquality
  | .conditional => Expr.isConditional
  | .binding => Expr.isLayered

theorem isSum_of_isLeaf {e : Expr} (h : e.isLeaf) : e.isSum := by
  cases e <;> first | exact h | cases h

theorem isEquality_of_isSum {e : Expr} (h : e.isSum) : e.isEquality := by
  cases e with
  | binary op l r => simp [Expr.isEquality, h]
  | _ => exact h

theorem isConditional_of_isEquality {e : Expr} (h : e.isEquality) : e.isConditional := by
  cases e <;> first | exact h | cases h

theorem isLayered_of_isConditional {e : Expr} (h : e.isConditional) : e.isLayered := by
  cases e <;> first | exact h | cases h

theorem Additive.keyword_eq {k : Keyword} {op : Operator} (h : Additive k op) :
    op.keyword = k ∧ op.isAdditive := by
  cases h <;> exact ⟨rfl, rfl⟩

theorem Comparison.keyword_eq {k : Keyword} {op : Operator} (h : Comparison k op) :
    op.keyword = k ∧ op.isComparison := by
  cases h <;> exact ⟨rfl, rfl⟩

theorem additive_keyword {op : Operator} (h : op.isAdditive) : Additive op.keyword op := by
  cases op with
  | add => exact .plus
  | sub => exact .minus
  | _ => cases h

theorem comparison_keyword {op : Operator} (h : op.isComparison) : Comparison op.keyword op := by
  cases op with
  | eq => exact .eq
  | notEq => exact .neq
  | _ => cases h

/-- A phrase is what its tree is written as, and its tree belongs to the layer. -/
theorem Derives.unparse_eq {layer : Layer} {input : List Symbol} {e : Expr}
    (h : Derives layer input e) : layer.has e ∧ e.unparse = input := by
  induction h with
  | number v => exact ⟨rfl, rfl⟩
  | placeholder i => exact ⟨rfl, rfl⟩
  | name x => exact ⟨rfl, rfl⟩
  | operand _ ih => exact ⟨isSum_of_isLeaf ih.1, ih.2⟩
  | additive hk _ _ ihl ihr =>
    obtain ⟨hl, rfl⟩ := ihl
    obtain ⟨hr, rfl⟩ := ihr
    obtain ⟨rfl, hop⟩ := hk.keyword_eq
    simp only [Layer.has] at hl hr
    exact ⟨by simp [Layer.has, Expr.isSum, hop, hl, hr], rfl⟩
  | sum _ ih => exact ⟨isEquality_of_isSum ih.1, ih.2⟩
  | comparison hk _ _ ihl ihr =>
    obtain ⟨hl, rfl⟩ := ihl
    obtain ⟨hr, rfl⟩ := ihr
    obtain ⟨rfl, hop⟩ := hk.keyword_eq
    simp only [Layer.has] at hl hr
    exact ⟨by simp [Layer.has, Expr.isEquality, hop, hl, hr], rfl⟩
  | equality _ ih => exact ⟨isConditional_of_isEquality ih.1, ih.2⟩
  | cond _ _ _ ihc iht ihe =>
    obtain ⟨hc, rfl⟩ := ihc
    obtain ⟨ht, rfl⟩ := iht
    obtain ⟨he, rfl⟩ := ihe
    simp only [Layer.has] at hc ht he
    exact ⟨by simp [Layer.has, Expr.isConditional, hc, ht, he], rfl⟩
  | conditional _ ih => exact ⟨isLayered_of_isConditional ih.1, ih.2⟩
  | letIn _ _ ihb ihe =>
    obtain ⟨hb, rfl⟩ := ihb
    obtain ⟨he, rfl⟩ := ihe
    simp only [Layer.has] at hb he
    exact ⟨by simp [Layer.has, Expr.isLayered, hb, he], rfl⟩

theorem derives_of_isLeaf {e : Expr} (h : e.isLeaf) : Derives .operand e.unparse e := by
  cases e with
  | number v => exact .number v
  | argument i => exact .placeholder i
  | name x => exact .name x
  | _ => cases h

theorem derives_of_isSum {e : Expr} (h : e.isSum) : Derives .sum e.unparse e := by
  induction e with
  | binary op l r ihl _ =>
    simp only [Expr.isSum, Bool.and_eq_true] at h
    obtain ⟨⟨hop, hl⟩, hr⟩ := h
    exact .additive (additive_keyword hop) (ihl hl) (derives_of_isLeaf hr)
  | _ => exact .operand (derives_of_isLeaf h)

theorem derives_of_isEquality {e : Expr} (h : e.isEquality) : Derives .equality e.unparse e := by
  induction e with
  | binary op l r _ ihr =>
    simp only [Expr.isEquality, Bool.or_eq_true, Bool.and_eq_true] at h
    rcases h with hsum | ⟨⟨hop, hl⟩, hr⟩
    · exact .sum (derives_of_isSum hsum)
    · exact .comparison (comparison_keyword hop) (derives_of_isSum hl) (ihr hr)
  | _ => exact .sum (.operand (derives_of_isLeaf h))

theorem derives_of_isConditional {e : Expr} (h : e.isConditional) :
    Derives .conditional e.unparse e := by
  induction e with
  | cond c t e ihc iht ihe =>
    simp only [Expr.isConditional, Bool.and_eq_true] at h
    obtain ⟨⟨hc, ht⟩, he⟩ := h
    exact .cond (ihc hc) (iht ht) (ihe he)
  | _ => exact .equality (derives_of_isEquality h)

theorem derives_of_isLayered {e : Expr} (h : e.isLayered) : Derives .binding e.unparse e := by
  induction e with
  | letIn x b e ihb ihe =>
    simp only [Expr.isLayered, Bool.and_eq_true] at h
    exact .letIn (ihb h.1) (ihe h.2)
  | _ => exact .conditional (derives_of_isConditional h)

/-- The grammar spells exactly the layered trees, each in one way. -/
theorem derives_iff_unparse {input : List Symbol} {e : Expr} :
    Derives .binding input e ↔ e.isLayered ∧ e.unparse = input := by
  constructor
  · exact Derives.unparse_eq
  · rintro ⟨hlayered, rfl⟩
    exact derives_of_isLayered hlayered

section Reading

variable [Machine]

/-- A tree that was read is layered and is written as it was read. A layered tree that is written
out is read again as it was, if it does not nest too deeply for the limit, whatever that is, and if
its tokens have texts: a value without one is in the way only where its token has no lexeme either.
So two sequences with the same tree have the same symbols. -/
theorem parse_inverts_unparse :
    (∀ tokens t, parse tokens = .ok t →
      t.isLayered ∧ t.unparse = tokens.map Token.symbol) ∧
    (∀ t : Expr, t.isLayered → ∀ tokens : List Token, tokens.map Token.symbol = t.unparse →
      ((∀ u ∈ tokens, u.lexeme ≠ "" ∨ u.symbol.value.unwritable? (.levels nestingLimit) = none) →
        parse tokens = if t.levels ≤ nestingLimit then .ok t else .error .tooDeep) ∧
      ∀ limit, Parser.sentence limit tokens =
        if t.levels ≤ limit then .ok t else .error .tooDeep) ∧
    ∀ tokens tokens' t, parse tokens = .ok t → parse tokens' = .ok t →
      tokens.map Token.symbol = tokens'.map Token.symbol := by
  have hread (tokens : List Token) (t : Expr) (h : parse tokens = .ok t) :
      t.isLayered ∧ t.unparse = tokens.map Token.symbol :=
    derives_iff_unparse.1 (parse_sound h).2.2
  refine ⟨hread, fun t ht tokens htokens => ⟨fun hwritable => ?_, fun limit => ?_⟩, ?_⟩
  · refine parse_of_spells (derives_iff_unparse.2 ⟨ht, htokens.symm⟩)
      (unspellable?_eq_none.2 fun u hu => ?_)
    unfold Token.unwritable?
    split
    next hempty => exact (hwritable u hu).resolve_left (· (String.isEmpty_iff.1 hempty))
    · rfl
  · exact sentence_of_spells (derives_iff_unparse.2 ⟨ht, htokens.symm⟩) limit
  · intro tokens tokens' t h h'
    rw [← (hread tokens t h).2, ← (hread tokens' t h').2]

end Reading

section StandardMachine

attribute [local instance] Machine.standard

/-- The tree of `let x $1 minus 0 plus x in if x eq y neq $1 then x else y`, which takes five
levels. -/
theorem parse_inverts_unparse_let_if :
    let t : Expr := .letIn "x" (.binary .add (.binary .sub (.argument (.int 1))
        (.number (.float (.zero false)))) (.name "x"))
      (.cond (.binary .eq (.name "x") (.binary .notEq (.name "y") (.argument (.int 1))))
        (.name "x") (.name "y"))
    let tokens := t.unparse.map fun s => Token.mk s ""
    parse tokens = .ok t ∧ (t.isLayered ∧ t.unparse = tokens.map Token.symbol) ∧
      Parser.sentence 4 tokens = .error .tooDeep := by
  intro t tokens
  have hlayered : t.isLayered := rfl
  have hlevels : t.levels = 5 := rfl
  obtain ⟨hreads, hsentence⟩ := parse_inverts_unparse.2.1 t hlayered tokens rfl
  have hparse := hreads (by decide +kernel)
  rw [hlevels, if_pos (by decide)] at hparse
  have hdeep := hsentence 4
  rw [hlevels, if_neg (by decide)] at hdeep
  exact ⟨hparse, parse_inverts_unparse.1 tokens t hparse, hdeep⟩

/-- A placeholder is a layered tree, but written out without a lexeme it is not read again if its
index is too long to be written. -/
theorem long_index_not_read_again :
    let t : Expr := .argument (.int (Int.pow 10 4300))
    t.isLayered ∧ t.levels = 1 ∧
      parse (t.unparse.map fun s => Token.mk s "") = .error .longInteger := by
  intro t
  have hlong : unspellable? (.levels nestingLimit) (t.unparse.map fun s => Token.mk s "") =
      some .longInteger := by decide +kernel
  exact ⟨rfl, rfl, by rw [parse, hlong]⟩

end StandardMachine

end Grammar
end CurryCalc
