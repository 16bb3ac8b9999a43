import CurryCalc.Proofs.SymbolParser

/-! The grammar as a relation between symbols and trees. Reading accepts exactly the sequences that
the grammar derives, and gives the derived tree; so no sequence has two trees. -/
namespace CurryCalc

/-- Levels of nesting that reading a tree takes. Sums are read in a loop and take one. -/
def Expr.levels : Expr → Nat
  | .binary .eq _ r => r.levels + 1
  | .binary .notEq _ r => r.levels + 1
  | .cond c t e => max c.levels (max t.levels e.levels) + 1
  | .letIn _ b e => max b.levels e.levels + 1
  | _ => 1

namespace Grammar
open CurryCalc.SymbolParser Outcome

/-- The layers of the grammar, from the tightest to the loosest. -/
inductive Layer where
  | operand
  | sum
  | equality
  | conditional
  | binding
deriving DecidableEq, Repr

inductive Additive : Keyword → Operator → Prop
  | plus : Additive .plus .add
  | minus : Additive .minus .sub

inductive Comparison : Keyword → Operator → Prop
  | eq : Comparison .eq .eq
  | neq : Comparison .neq .notEq

/-- The symbols are a phrase of the layer, and the tree is what they spell. Sums lean to the left
and equalities to the right; a phrase of a tighter layer is one of every looser layer. -/
inductive Derives : Layer → List Symbol → Expr → Prop
  | number (v : Value) : Derives .operand [.number v] (.number v)
  | placeholder (i : Value) : Derives .operand [.placeholder i] (.argument i)
  | name (x : Value) : Derives .operand [.name x] (.name x)
  | operand {input : List Symbol} {e : Expr} : Derives .operand input e → Derives .sum input e
  | additive {k : Keyword} {op : Operator} {front back : List Symbol} {l r : Expr} :
      Additive k op → Derives .sum front l → Derives .operand back r →
      Derives .sum (front ++ .keyword k :: back) (.binary op l r)
  | sum {input : List Symbol} {e : Expr} : Derives .sum input e → Derives .equality input e
  | comparison {k : Keyword} {op : Operator} {front back : List Symbol} {l r : Expr} :
      Comparison k op → Derives .sum front l → Derives .equality back r →
      Derives .equality (front ++ .keyword k :: back) (.binary op l r)
  | equality {input : List Symbol} {e : Expr} :
      Derives .equality input e → Derives .conditional input e
  | cond {test yes no : List Symbol} {c t e : Expr} :
      Derives .conditional test c → Derives .conditional yes t → Derives .conditional no e →
      Derives .conditional (.keyword .ifWord :: (test ++ .keyword .thenWord ::
        (yes ++ .keyword .elseWord :: no))) (.cond c t e)
  | conditional {input : List Symbol} {e : Expr} :
      Derives .conditional input e → Derives .binding input e
  | letIn {x : Value} {bound body : List Symbol} {b e : Expr} :
      Derives .binding bound b → Derives .binding body e →
      Derives .binding (.keyword .letWord :: .name x :: (bound ++ .keyword .inWord :: body))
        (.letIn x b e)

/-- The symbols that a phrase of a layer can start with. -/
def Starts : Layer → Symbol → Prop
  | .conditional, s => (operand? s).isSome ∨ s = .keyword .ifWord
  | .binding, s => (operand? s).isSome ∨ s = .keyword .ifWord ∨ s = .keyword .letWord
  | _, s => (operand? s).isSome

theorem Derives.starts {layer : Layer} {input : List Symbol} {e : Expr}
    (h : Derives layer input e) : ∃ s more, input = s :: more ∧ Starts layer s := by
  induction h with
  | number v => exact ⟨_, _, rfl, rfl⟩
  | placeholder i => exact ⟨_, _, rfl, rfl⟩
  | name x => exact ⟨_, _, rfl, rfl⟩
  | operand _ ih => exact ih
  | additive _ _ _ ih _ =>
    obtain ⟨s, more, rfl, hs⟩ := ih
    exact ⟨s, _, rfl, hs⟩
  | sum _ ih => exact ih
  | comparison _ _ _ ih _ =>
    obtain ⟨s, more, rfl, hs⟩ := ih
    exact ⟨s, _, rfl, hs⟩
  | equality _ ih =>
    obtain ⟨s, more, rfl, hs⟩ := ih
    exact ⟨s, more, rfl, .inl hs⟩
  | cond => exact ⟨_, _, rfl, .inr rfl⟩
  | conditional _ ih =>
    obtain ⟨s, more, rfl, hs⟩ := ih
    exact ⟨s, more, rfl, hs.imp_right .inl⟩
  | letIn => exact ⟨_, _, rfl, .inr (.inr rfl)⟩

def SumEnds (rest : List Symbol) : Prop :=
  ∀ k more, rest = .keyword k :: more → additive? k = none ∧ k.isUnsupported = false

def PhraseEnds (rest : List Symbol) : Prop :=
  ∀ k more, rest = .keyword k :: more →
    additive? k = none ∧ k.isUnsupported = false ∧ comparison? k = none

theorem PhraseEnds.sumEnds {rest : List Symbol} (h : PhraseEnds rest) : SumEnds rest := by
  intro k more hrest
  exact ⟨(h k more hrest).1, (h k more hrest).2.1⟩

theorem phraseEnds_nil : PhraseEnds [] := by
  intro k more h
  cases h

theorem phraseEnds_keyword {k : Keyword} (ha : additive? k = none) (hu : k.isUnsupported = false)
    (hc : comparison? k = none) (more : List Symbol) : PhraseEnds (.keyword k :: more) := by
  rintro _ _ ⟨⟩
  exact ⟨ha, hu, hc⟩

theorem PhraseEnds.congr {s : Symbol} {more : List Symbol} (h : PhraseEnds (s :: more))
    (more' : List Symbol) : PhraseEnds (s :: more') := by
  rintro k _ ⟨⟩
  exact h k more rfl

theorem sumFrom_of_ends {rest : List Symbol} (h : SumEnds rest) (e : Expr) :
    sumFrom e rest = .ok (e, rest) := by
  cases rest with
  | nil => rfl
  | cons s more =>
    cases s with
    | keyword k =>
      obtain ⟨ha, hu⟩ := h k more rfl
      simp [sumFrom, ha, hu]
    | number | name | placeholder => rfl

theorem Additive.eq_some {k : Keyword} {op : Operator} (h : Additive k op) :
    additive? k = some op := by
  cases h <;> rfl

theorem Comparison.eq_some {k : Keyword} {op : Operator} (h : Comparison k op) :
    comparison? k = some op := by
  cases h <;> rfl

theorem Comparison.sumEnds {k : Keyword} {op : Operator} (h : Comparison k op)
    (more : List Symbol) : SumEnds (.keyword k :: more) := by
  rintro _ _ ⟨⟩
  cases h <;> exact ⟨rfl, rfl⟩

theorem conditional_of_head {input : List Symbol} (h : input.head? ≠ some (.keyword .ifWord))
    (n : Nat) :
    SymbolParser.conditional (n + 1) input = SymbolParser.equality (n + 1) .expression input := by
  unfold SymbolParser.conditional
  split <;> simp_all

theorem binding_of_head {input : List Symbol} (h : input.head? ≠ some (.keyword .letWord))
    (n : Nat) : SymbolParser.binding (n + 1) input = SymbolParser.conditional (n + 1) input := by
  unfold SymbolParser.binding
  split <;> simp_all

/-- The outcome of reading a tree with room for `n` levels when `rest` comes after it. -/
def within (n : Nat) (e : Expr) (rest : List Symbol) :
    Except (Refusal Symbol) (Expr × List Symbol) :=
  if e.levels ≤ n then .ok (e, rest) else .error .tooDeep

def Reads : Layer → List Symbol → Expr → Prop
  | .operand, input, e => ∃ s, input = [s] ∧ operand? s = some e
  | .sum, input, e =>
    e.levels = 1 ∧ ∀ expected rest, SymbolParser.sum expected (input ++ rest) = sumFrom e rest
  | .equality, input, e => ∀ n expected rest, PhraseEnds rest →
      SymbolParser.equality n expected (input ++ rest) = within n e rest
  | .conditional, input, e => ∀ n rest, PhraseEnds rest →
      conditional n (input ++ rest) = within n e rest
  | .binding, input, e => ∀ n rest, PhraseEnds rest →
      SymbolParser.binding n (input ++ rest) = within n e rest

theorem levels_pos (e : Expr) : 1 ≤ e.levels := by
  unfold Expr.levels
  split <;> omega

theorem within_zero (e : Expr) (rest : List Symbol) : within 0 e rest = .error .tooDeep := by
  have h := levels_pos e
  rw [within, if_neg (by omega)]

theorem Reads.additive {k : Keyword} {op : Operator} {front back : List Symbol} {l r : Expr}
    (hk : Additive k op) (hl : Reads .sum front l) (hr : Reads .operand back r) :
    Reads .sum (front ++ .keyword k :: back) (.binary op l r) := by
  obtain ⟨s, rfl, hs⟩ := hr
  refine ⟨by cases hk <;> rfl, fun expected rest => ?_⟩
  rw [List.append_assoc, hl.2]
  simp [sumFrom, hk.eq_some, hs]

theorem Reads.comparison {k : Keyword} {op : Operator} {front back : List Symbol} {l r : Expr}
    (hk : Comparison k op) (hl : Reads .sum front l) (hr : Reads .equality back r) :
    Reads .equality (front ++ .keyword k :: back) (.binary op l r) := by
  intro n expected rest hrest
  have hlevels : (Expr.binary op l r).levels = r.levels + 1 := by cases hk <;> rfl
  cases n with
  | zero => rw [within_zero, SymbolParser.equality]
  | succ n =>
    rw [List.append_assoc, SymbolParser.equality, hl.2, List.cons_append,
      sumFrom_of_ends (hk.sumEnds _)]
    simp only [hk.eq_some, hr n _ rest hrest, within, hlevels, Nat.add_le_add_iff_right]
    by_cases hn : r.levels ≤ n <;> simp [hn]

theorem Reads.equality_of_sum {input : List Symbol} {e : Expr} (h : Reads .sum input e) :
    Reads .equality input e := by
  intro n expected rest hrest
  cases n with
  | zero => rw [within_zero, SymbolParser.equality]
  | succ n =>
    rw [SymbolParser.equality, h.2, sumFrom_of_ends hrest.sumEnds, within, h.1, if_pos (by omega)]
    cases rest with
    | nil => rfl
    | cons s more =>
      cases s with
      | keyword k => simp [(hrest k more rfl).2.2]
      | number | name | placeholder => rfl

theorem within_bind {α : Type} (n : Nat) (e : Expr) (rest : List Symbol)
    (next : Expr × List Symbol → Except (Refusal Symbol) α) :
    (within n e rest >>= next) = if e.levels ≤ n then next (e, rest) else .error .tooDeep := by
  unfold within
  split <;> rfl

theorem within_ok {n : Nat} {e : Expr} {rest : List Symbol} {r : Expr × List Symbol}
    (h : within n e rest = .ok r) (rest' : List Symbol) : within n e rest' = .ok (e, rest') := by
  unfold within at h ⊢
  split at h
  next hn => exact if_pos hn
  · cases h

theorem expect_self (k : Keyword) (expected : Expected) (rest : List Symbol) :
    expect k expected (.keyword k :: rest) = .ok rest := by
  simp [expect]

theorem Reads.cond {test yes no : List Symbol} {c t e : Expr} (hc : Reads .conditional test c)
    (ht : Reads .conditional yes t) (he : Reads .conditional no e) :
    Reads .conditional (.keyword .ifWord :: (test ++ .keyword .thenWord ::
      (yes ++ .keyword .elseWord :: no))) (.cond c t e) := by
  intro n rest hrest
  cases n with
  | zero => rw [within_zero, conditional]
  | succ n =>
    have hthen := hc n (.keyword .thenWord :: (yes ++ .keyword .elseWord :: (no ++ rest)))
      (phraseEnds_keyword rfl rfl rfl _)
    have helse := ht n (.keyword .elseWord :: (no ++ rest)) (phraseEnds_keyword rfl rfl rfl _)
    simp only [List.cons_append, List.append_assoc, conditional, hthen, helse, he n rest hrest,
      within_bind, expect_self, bind_ok]
    simp only [within, Expr.levels, pure, Except.pure, Nat.add_le_add_iff_right, Nat.max_le]
    grind

theorem Reads.letIn {x : Value} {bound body : List Symbol} {b e : Expr}
    (hb : Reads .binding bound b) (he : Reads .binding body e) :
    Reads .binding (.keyword .letWord :: .name x :: (bound ++ .keyword .inWord :: body))
      (.letIn x b e) := by
  intro n rest hrest
  cases n with
  | zero => rw [within_zero, SymbolParser.binding]
  | succ n =>
    have hin := hb n (.keyword .inWord :: (body ++ rest)) (phraseEnds_keyword rfl rfl rfl _)
    simp only [List.cons_append, List.append_assoc, SymbolParser.binding, hin, he n rest hrest,
      within_bind, expect_self, bind_ok]
    simp only [within, Expr.levels, pure, Except.pure, Nat.add_le_add_iff_right, Nat.max_le]
    grind

/-- Reading gives back the tree of a phrase and what comes after it, if the tree is not nested too
deeply. -/
theorem Derives.reads {layer : Layer} {input : List Symbol} {e : Expr}
    (h : Derives layer input e) : Reads layer input e := by
  induction h with
  | number v => exact ⟨_, rfl, rfl⟩
  | placeholder i => exact ⟨_, rfl, rfl⟩
  | name x => exact ⟨_, rfl, rfl⟩
  | operand h ih =>
    obtain ⟨s, rfl, hs⟩ := ih
    refine ⟨by cases h <;> rfl, fun expected rest => ?_⟩
    simp [SymbolParser.sum, hs]
  | additive hk _ _ ihl ihr => exact Reads.additive hk ihl ihr
  | sum _ ih => exact Reads.equality_of_sum ih
  | comparison hk _ _ ihl ihr => exact Reads.comparison hk ihl ihr
  | equality h ih =>
    intro n rest hrest
    cases n with
    | zero => rw [within_zero, SymbolParser.conditional]
    | succ n =>
      obtain ⟨s, more, rfl, hs⟩ := h.starts
      rw [conditional_of_head (by rintro ⟨⟩; cases hs), ih _ _ rest hrest]
  | cond _ _ _ ihc iht ihe => exact Reads.cond ihc iht ihe
  | conditional h ih =>
    intro n rest hrest
    cases n with
    | zero => rw [within_zero, SymbolParser.binding]
    | succ n =>
      obtain ⟨s, more, rfl, hs⟩ := h.starts
      rw [binding_of_head (by rintro ⟨⟩; rcases hs with hs | hs <;> cases hs), ih _ rest hrest]
  | letIn _ _ ihb ihe => exact Reads.letIn ihb ihe

theorem derives_of_operand {s : Symbol} {e : Expr} (h : operand? s = some e) :
    Derives .operand [s] e := by
  cases s with
  | keyword k => cases h
  | number v => cases h; exact .number v
  | name x => cases h; exact .name x
  | placeholder i => cases h; exact .placeholder i

theorem additive_of_eq_some {k : Keyword} {op : Operator} (h : additive? k = some op) :
    Additive k op := by
  unfold additive? at h
  split at h <;> cases h
  · exact .plus
  · exact .minus

theorem comparison_of_eq_some {k : Keyword} {op : Operator} (h : comparison? k = some op) :
    Comparison k op := by
  unfold comparison? at h
  split at h <;> cases h
  · exact .eq
  · exact .neq

theorem sumFrom_sound {l e : Expr} {input rest : List Symbol}
    (h : sumFrom l input = .ok (e, rest)) {front : List Symbol} (hl : Derives .sum front l) :
    ∃ more, input = more ++ rest ∧ Derives .sum (front ++ more) e ∧ SumEnds rest := by
  fun_induction sumFrom l input generalizing front with
  | case1 l k op hk => cases h
  | case2 l k op hk s rest' r hs ih =>
    have hsum := Derives.additive (additive_of_eq_some hk) hl (derives_of_operand hs)
    obtain ⟨more, rfl, he, hrest⟩ := ih h hsum
    exact ⟨.keyword k :: s :: more, rfl, by simpa using he, hrest⟩
  | case3 l k op hk s rest' hs => cases h
  | case4 l k rest' hk hu => cases h
  | case5 l k rest' hk hu =>
    cases h
    refine ⟨[], rfl, by simpa using hl, ?_⟩
    rintro _ _ ⟨⟩
    exact ⟨hk, by simpa using hu⟩
  | case6 l rest' hrest =>
    cases h
    exact ⟨[], rfl, by simpa using hl, fun k more hk => (hrest k more hk).elim⟩

theorem sum_sound {expected : Expected} {e : Expr} {input rest : List Symbol}
    (h : SymbolParser.sum expected input = .ok (e, rest)) :
    ∃ front, input = front ++ rest ∧ Derives .sum front e ∧ SumEnds rest := by
  unfold SymbolParser.sum at h
  split at h
  · cases h
  next s more =>
    split at h
    next l hs =>
      obtain ⟨tail, rfl, he, hrest⟩ := sumFrom_sound h (.operand (derives_of_operand hs))
      exact ⟨s :: tail, rfl, he, hrest⟩
    · cases h

theorem equality_sound {n : Nat} {expected : Expected} {e : Expr} {input rest : List Symbol}
    (h : SymbolParser.equality n expected input = .ok (e, rest)) :
    ∃ front, input = front ++ rest ∧ Derives .equality front e ∧ PhraseEnds rest := by
  fun_induction SymbolParser.equality n expected input generalizing e rest with
  | case1 => cases h
  | case2 => cases h
  | case3 n expected input l k rest' hs op hk f hf ih => cases h
  | case4 n expected input l k rest' hs op hk r rest'' hr ih =>
    cases h
    obtain ⟨front, rfl, hl, -⟩ := sum_sound hs
    obtain ⟨back, rfl, he, hrest⟩ := ih hr
    exact ⟨front ++ .keyword k :: back, by simp, .comparison (comparison_of_eq_some hk) hl he,
      hrest⟩
  | case5 n expected input l k rest' hs hk =>
    cases h
    obtain ⟨front, rfl, hl, hrest⟩ := sum_sound hs
    refine ⟨front, rfl, .sum hl, ?_⟩
    rintro _ _ ⟨⟩
    exact ⟨(hrest k rest' rfl).1, (hrest k rest' rfl).2, hk⟩
  | case6 n expected input l rest' hne hs =>
    cases h
    obtain ⟨front, rfl, hl, -⟩ := sum_sound hs
    exact ⟨front, rfl, .sum hl, fun k more hk => (hne k more hk).elim⟩

theorem expect_ok {k : Keyword} {expected : Expected} {input rest : List Symbol}
    (h : expect k expected input = .ok rest) : input = .keyword k :: rest := by
  unfold expect at h
  split at h
  next k' more =>
    split at h
    next hk =>
      cases h
      rw [hk]
    · cases h
  · cases h

theorem expect_error {k : Keyword} {expected : Expected} {input : List Symbol} {r : Refusal Symbol}
    (h : expect k expected input = .error r) : r = .wanted expected input ∧
      ∀ s more, input = s :: more → ∀ more',
        expect k expected (s :: more') = .error (.wanted expected (s :: more')) := by
  unfold expect at h
  split at h
  next k' more =>
    split at h
    · cases h
    next hk =>
      cases h
      refine ⟨rfl, ?_⟩
      rintro _ _ ⟨⟩ more'
      simp [expect, hk]
  next hne =>
    cases h
    refine ⟨rfl, ?_⟩
    rintro s more rfl more'
    cases s with
    | keyword k' => exact (hne k' more rfl).elim
    | number | name | placeholder => rfl

theorem conditional_sound {n : Nat} {e : Expr} {input rest : List Symbol}
    (h : SymbolParser.conditional n input = .ok (e, rest)) :
    ∃ front, input = front ++ rest ∧ Derives .conditional front e ∧ PhraseEnds rest := by
  fun_induction SymbolParser.conditional n input generalizing e rest with
  | case1 => cases h
  | case2 n input ihc ih =>
    obtain ⟨⟨c, rest1⟩, hc, h⟩ := ok_of_bind h
    obtain ⟨rest2, hthen, h⟩ := ok_of_bind h
    obtain ⟨⟨t, rest3⟩, ht, h⟩ := ok_of_bind h
    obtain ⟨rest4, helse, h⟩ := ok_of_bind h
    obtain ⟨⟨e', rest5⟩, he, h⟩ := ok_of_bind h
    cases h
    obtain ⟨test, rfl, dc, -⟩ := ihc hc
    cases expect_ok hthen
    obtain ⟨yes, rfl, dt, -⟩ := ih _ ht
    cases expect_ok helse
    obtain ⟨no, rfl, de, hrest⟩ := ih _ he
    exact ⟨_, by simp, .cond dc dt de, hrest⟩
  | case3 n input hne =>
    obtain ⟨front, rfl, he, hrest⟩ := equality_sound h
    exact ⟨front, rfl, .equality he, hrest⟩

theorem binding_sound {n : Nat} {e : Expr} {input rest : List Symbol}
    (h : SymbolParser.binding n input = .ok (e, rest)) :
    ∃ front, input = front ++ rest ∧ Derives .binding front e ∧ PhraseEnds rest := by
  fun_induction SymbolParser.binding n input generalizing e rest with
  | case1 => cases h
  | case2 n x input ihb ih =>
    obtain ⟨⟨b, rest1⟩, hb, h⟩ := ok_of_bind h
    obtain ⟨rest2, hin, h⟩ := ok_of_bind h
    obtain ⟨⟨e', rest3⟩, he, h⟩ := ok_of_bind h
    cases h
    obtain ⟨bound, rfl, db, -⟩ := ihb hb
    cases expect_ok hin
    obtain ⟨body, rfl, de, hrest⟩ := ih _ he
    exact ⟨_, by simp, .letIn db de, hrest⟩
  | case3 => cases h
  | case4 n input hlet hne =>
    obtain ⟨front, rfl, he, hrest⟩ := conditional_sound h
    exact ⟨front, rfl, .conditional he, hrest⟩

theorem sentence_of_derives {input : List Symbol} {e : Expr} (h : Derives .binding input e)
    (n : Nat) : sentence n input = if e.levels ≤ n then .ok e else .error .tooDeep := by
  have hread := h.reads n [] phraseEnds_nil
  rw [List.append_nil, within] at hread
  rw [sentence, hread]
  by_cases hn : e.levels ≤ n <;> simp [hn]

theorem sentence_sound {n : Nat} {input : List Symbol} {e : Expr} (h : sentence n input = .ok e) :
    SymbolParser.binding n input = .ok (e, []) ∧ Derives .binding input e := by
  unfold sentence at h
  split at h
  · cases h
  next e' hread =>
    cases h
    obtain ⟨front, rfl, he, -⟩ := binding_sound hread
    exact ⟨hread, by simpa using he⟩
  · cases h

theorem Derives.unique {input : List Symbol} {t u : Expr} (ht : Derives .binding input t)
    (hu : Derives .binding input u) : t = u := by
  have h := sentence_of_derives ht (max t.levels u.levels)
  rw [sentence_of_derives hu, if_pos (by omega), if_pos (by omega)] at h
  exact (Except.ok.inj h).symm

/-- The tokens are a program that spells the tree. -/
def Spells (tokens : List Token) (e : Expr) : Prop := Derives .binding (tokens.map Token.symbol) e

theorem sentence_of_spells {tokens : List Token} {e : Expr} (h : Spells tokens e) (n : Nat) :
    Parser.sentence n tokens = if e.levels ≤ n then .ok e else .error .tooDeep := by
  have hread := Lockstep.sentence n tokens
  rw [sentence_of_derives h] at hread
  generalize Parser.sentence n tokens = read at hread ⊢
  split at hread
  · cases hread with
    | ok he => rw [he, if_pos ‹_›]
  · cases hread
    rw [if_neg ‹_›]

section Reading

variable [Machine]

/-- What ends the reading of tokens: one of them cannot be written, or their symbols are read. -/
theorem parse_cases (tokens : List Token) :
    (∃ f, unspellable? (.levels nestingLimit) tokens = some f ∧ parse tokens = .error f) ∨
    unspellable? (.levels nestingLimit) tokens = none ∧
      ((∃ e, sentence nestingLimit (tokens.map Token.symbol) = .ok e ∧ parse tokens = .ok e) ∨
      (sentence nestingLimit (tokens.map Token.symbol) = .error .tooDeep ∧
        parse tokens = .error .tooDeep) ∨
      ∃ expected rest,
        sentence nestingLimit (tokens.map Token.symbol) = .error (.wanted expected rest) ∧
        parse tokens =
          .error (.fault (unexpectedAt tokens (tokens.length - rest.length) expected))) := by
  have hread := Lockstep.sentence nestingLimit tokens
  unfold parse
  cases unspellable? (.levels nestingLimit) tokens with
  | some f => exact .inl ⟨f, rfl, rfl⟩
  | none =>
    refine .inr ⟨rfl, ?_⟩
    dsimp only
    generalize Parser.sentence nestingLimit tokens = read,
      sentence nestingLimit (tokens.map Token.symbol) = read' at hread
    cases hread with
    | ok h =>
      subst h
      exact .inl ⟨_, rfl, rfl⟩
    | tooDeep => exact .inr (.inl ⟨rfl, rfl⟩)
    | wanted expected rest => exact .inr (.inr ⟨expected, _, rfl, by rw [List.length_map]⟩)

theorem parse_sound {tokens : List Token} {e : Expr} (h : parse tokens = .ok e) :
    unspellable? (.levels nestingLimit) tokens = none ∧
      SymbolParser.binding nestingLimit (tokens.map Token.symbol) = .ok (e, []) ∧
      Spells tokens e := by
  rcases parse_cases tokens with
    ⟨_, -, hp⟩ | ⟨hspell, ⟨e', hs, hp⟩ | ⟨-, hp⟩ | ⟨_, _, -, hp⟩⟩ <;> cases hp.symm.trans h
  exact ⟨hspell, sentence_sound hs⟩

theorem nestingLimit_pos {tokens : List Token} {e : Expr} (h : parse tokens = .ok e) :
    0 < nestingLimit := by
  have hread := (parse_sound h).2.1
  rcases Nat.eq_zero_or_pos nestingLimit with hzero | hpos
  · rw [hzero] at hread
    cases hread
  · exact hpos

theorem parse_of_spells {tokens : List Token} {e : Expr} (h : Spells tokens e)
    (hspell : unspellable? (.levels nestingLimit) tokens = none) :
    parse tokens = if e.levels ≤ nestingLimit then .ok e else .error .tooDeep := by
  have hsentence := sentence_of_derives h nestingLimit
  rcases parse_cases tokens with
    ⟨f, hf, -⟩ | ⟨-, ⟨e', hs, hp⟩ | ⟨hs, hp⟩ | ⟨expected, rest, hs, hp⟩⟩
  · cases hf.symm.trans hspell
  all_goals
    rw [hs] at hsentence
    split at hsentence <;> cases hsentence
  · rw [hp, if_pos ‹_›]
  · rw [hp, if_neg ‹_›]

end Reading

theorem refuse_ne_tooDeep (expected : Expected) (rest : List Symbol) :
    refuse expected rest ≠ .tooDeep := by
  unfold refuse
  split <;> simp

theorem sum_ne_tooDeep (expected : Expected) (input : List Symbol) :
    SymbolParser.sum expected input ≠ .error .tooDeep := by
  have hfrom (l : Expr) (input : List Symbol) : sumFrom l input ≠ .error .tooDeep := by
    fun_induction sumFrom l input with
    | case2 l k op hk s rest r hs ih => exact ih
    | case3 => simp [refuse_ne_tooDeep]
    | _ => simp
  unfold SymbolParser.sum
  split
  · simp
  · split
    · exact hfrom _ _
    · simp [refuse_ne_tooDeep]

/-- Every level of nesting takes a symbol. -/
theorem equality_tooDeep {n : Nat} {expected : Expected} {input : List Symbol}
    (h : SymbolParser.equality n expected input = .error .tooDeep) : n ≤ input.length := by
  fun_induction SymbolParser.equality n expected input with
  | case1 => exact Nat.zero_le _
  | case2 n expected input r hs =>
    cases h
    exact (sum_ne_tooDeep expected input hs).elim
  | case3 n expected input l k rest' hs op hk f hf ih =>
    cases h
    obtain ⟨front, rfl, -, -⟩ := sum_sound hs
    have := ih hf
    simp only [List.length_append, List.length_cons]
    omega
  | case4 => cases h
  | case5 => cases h
  | case6 => cases h

theorem conditional_tooDeep {n : Nat} {input : List Symbol}
    (h : SymbolParser.conditional n input = .error .tooDeep) : n ≤ input.length := by
  fun_induction SymbolParser.conditional n input with
  | case1 => exact Nat.zero_le _
  | case2 n input ihc ih =>
    rcases error_of_bind h with hc | ⟨⟨c, rest1⟩, hc, h1⟩
    · exact Nat.succ_le_succ (ihc hc)
    obtain ⟨test, rfl, -, -⟩ := conditional_sound hc
    rcases error_of_bind h1 with hthen | ⟨rest2, hthen, h2⟩
    · cases (expect_error hthen).1
    cases expect_ok hthen
    rcases error_of_bind h2 with ht | ⟨⟨t, rest3⟩, ht, h3⟩
    · have := ih _ ht
      simp only [List.length_append, List.length_cons]
      omega
    obtain ⟨yes, rfl, -, -⟩ := conditional_sound ht
    rcases error_of_bind h3 with helse | ⟨rest4, helse, h4⟩
    · cases (expect_error helse).1
    cases expect_ok helse
    rcases error_of_bind h4 with he | ⟨⟨e, rest5⟩, he, h5⟩
    · have := ih _ he
      simp only [List.length_append, List.length_cons]
      omega
    cases h5
  | case3 n input hne => exact equality_tooDeep h

theorem binding_tooDeep {n : Nat} {input : List Symbol}
    (h : SymbolParser.binding n input = .error .tooDeep) : n ≤ input.length := by
  fun_induction SymbolParser.binding n input with
  | case1 => exact Nat.zero_le _
  | case2 n x input ihb ih =>
    rcases error_of_bind h with hb | ⟨⟨b, rest1⟩, hb, h1⟩
    · have := ihb hb
      simp only [List.length_cons]
      omega
    obtain ⟨bound, rfl, -, -⟩ := binding_sound hb
    rcases error_of_bind h1 with hin | ⟨rest2, hin, h2⟩
    · cases (expect_error hin).1
    cases expect_ok hin
    rcases error_of_bind h2 with he | ⟨⟨e, rest3⟩, he, h3⟩
    · have := ih _ he
      simp only [List.length_append, List.length_cons]
      omega
    cases h3
  | case3 => cases h
  | case4 n input hlet hne => exact conditional_tooDeep h

theorem sentence_tooDeep {n : Nat} {input : List Symbol}
    (h : sentence n input = .error .tooDeep) : n ≤ input.length := by
  unfold sentence at h
  split at h
  next r hread =>
    cases h
    exact binding_tooDeep hread
  · cases h
  · cases h

theorem unspellable?_eq_none {room : Room} {tokens : List Token} :
    unspellable? room tokens = none ↔ ∀ t ∈ tokens, t.unwritable? room = none := by
  simp [unspellable?]

section Limits

variable [Machine]

theorem binding_of_parse {tokens : List Token} {e : Expr} (h : parse tokens = .ok e) :
    Parser.binding nestingLimit tokens = .ok (e, []) := by
  have hread := Lockstep.binding nestingLimit tokens
  rw [(parse_sound h).2.1] at hread
  generalize Parser.binding nestingLimit tokens = read at hread ⊢
  cases hread with
  | @ok a _ h =>
    obtain ⟨e', rest⟩ := a
    obtain ⟨rfl, hrest⟩ : e' = e ∧ rest.map Token.symbol = [] := h
    rw [List.map_eq_nil_iff.1 hrest]

theorem parse_tooDeep {tokens : List Token} (h : parse tokens = .error .tooDeep)
    (hspell : unspellable? (.levels nestingLimit) tokens = none) :
    nestingLimit ≤ tokens.length := by
  rcases parse_cases tokens with
    ⟨f, hf, -⟩ | ⟨-, ⟨_, -, hp⟩ | ⟨hs, -⟩ | ⟨_, _, -, hp⟩⟩
  · cases hf.symm.trans hspell
  · cases hp.symm.trans h
  · simpa using sentence_tooDeep hs
  · cases hp.symm.trans h

/-- If all tokens can be written then, within the nesting limit, reading succeeds on exactly the
sentences of the grammar, with all tokens used up, and otherwise reports an unexpected token. Only
as many tokens as the limit allows levels can reach it. Where a token cannot be written, reading
ends with what is wrong with the first such token, whatever the grammar says. No sequence spells two
trees. -/
theorem parse_accepts_grammar (tokens : List Token) :
    ((∀ t ∈ tokens, t.unwritable? (.levels nestingLimit) = none) →
      (parse tokens ≠ .error .tooDeep →
        (∀ t, parse tokens = .ok t ↔ Spells tokens t) ∧
        (∀ t, parse tokens = .ok t → Parser.binding nestingLimit tokens = .ok (t, [])) ∧
        ((∀ t, ¬ Spells tokens t) → ∃ expected found position source start stop, parse tokens =
          .error (.fault (.unexpected expected found position source start stop)))) ∧
      (tokens.length < nestingLimit → parse tokens ≠ .error .tooDeep)) ∧
    (∀ front t back f, tokens = front ++ t :: back →
      (∀ u ∈ front, u.unwritable? (.levels nestingLimit) = none) →
      t.unwritable? (.levels nestingLimit) = some f → parse tokens = .error f) ∧
    ∀ t u, Spells tokens t → Spells tokens u → t = u := by
  refine ⟨fun hwritable => ?_, fun front t back f htokens hfront ht => ?_,
    fun t u => Derives.unique⟩
  · have hspell := unspellable?_eq_none.2 hwritable
    refine ⟨fun hlimit => ⟨fun t => ⟨fun h => (parse_sound h).2.2, fun h => ?_⟩,
      fun t => binding_of_parse, fun hnone => ?_⟩,
      fun hshort hdeep => Nat.not_lt.2 (parse_tooDeep hdeep hspell) hshort⟩
    · have hp := parse_of_spells h hspell
      by_cases hn : t.levels ≤ nestingLimit
      · rwa [if_pos hn] at hp
      · exact (hlimit (by rwa [if_neg hn] at hp)).elim
    · rcases parse_cases tokens with
        ⟨f, hf, -⟩ | ⟨-, ⟨e, -, hp⟩ | ⟨-, hp⟩ | ⟨_, _, -, hp⟩⟩
      · cases hf.symm.trans hspell
      · exact (hnone e (parse_sound hp).2.2).elim
      · exact (hlimit hp).elim
      · exact ⟨_, _, _, _, _, _, hp⟩
  · have hunspellable : unspellable? (.levels nestingLimit) tokens = some f := by
      rw [htokens, unspellable?, List.findSome?_append, List.findSome?_eq_none_iff.2 hfront,
        Option.none_or, List.findSome?_cons, ht]
    rw [parse, hunspellable]

end Limits

section StandardMachine

attribute [local instance] Machine.standard

/-- The sentence `let x $1 in if x eq y then x minus $2 plus y else x`. -/
theorem parse_accepts_let_if :
    let tokens : List Token := [⟨.keyword .letWord, "let"⟩, ⟨.name "x", "x"⟩,
      ⟨.placeholder (.int 1), "$1"⟩, ⟨.keyword .inWord, "in"⟩, ⟨.keyword .ifWord, "if"⟩,
      ⟨.name "x", "x"⟩, ⟨.keyword .eq, "eq"⟩, ⟨.name "y", "y"⟩, ⟨.keyword .thenWord, "then"⟩,
      ⟨.name "x", "x"⟩, ⟨.keyword .minus, "minus"⟩, ⟨.placeholder (.int 2), "$2"⟩,
      ⟨.keyword .plus, "plus"⟩, ⟨.name "y", "y"⟩, ⟨.keyword .elseWord, "else"⟩, ⟨.name "x", "x"⟩]
    Spells tokens (.letIn "x" (.argument (.int 1)) (.cond (.binary .eq (.name "x") (.name "y"))
      (.binary .add (.binary .sub (.name "x") (.argument (.int 2))) (.name "y")) (.name "x"))) := by
  intro tokens
  obtain ⟨haccepts, hshallow⟩ := (parse_accepts_grammar tokens).1 (by decide +kernel)
  exact ((haccepts (hshallow (by decide))).1 _).1 rfl

/-- A placeholder without a lexeme is a sentence, but its index may be too long to be written. -/
theorem long_placeholder_not_read :
    let tokens : List Token := [⟨.placeholder (.int (Int.pow 10 4300)), ""⟩]
    Spells tokens (.argument (.int (Int.pow 10 4300))) ∧ parse tokens = .error .longInteger := by
  intro tokens
  have hlong : unspellable? (.levels nestingLimit) tokens = some .longInteger := by decide +kernel
  refine ⟨.conditional (.equality (.sum (.operand (.placeholder _)))), ?_⟩
  rw [parse, hlong]

end StandardMachine

end Grammar
end CurryCalc
