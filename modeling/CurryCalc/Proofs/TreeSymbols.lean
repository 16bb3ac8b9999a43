import CurryCalc.Proofs.Grammar
import CurryCalc.Proofs.NumberConversion
import CurryCalc.Proofs.Traversal

/-! What a tree has in it, and where that comes from: its names, numbers and indices are the symbols
that it was read from, and every symbol of a text has a value of the sort that its kind asks for. -/
namespace CurryCalc

def Symbol.index? : Symbol → Option Value
  | .placeholder i => some i
  | _ => none

namespace Expr

/-- The names that an expression leaves to its surroundings. A let binds its name in the body
only. -/
def freeNames : Expr → List Value
  | .name x => [x]
  | .binary _ l r => l.freeNames ++ r.freeNames
  | .letIn x b e => b.freeNames ++ e.freeNames.filter fun y => y.normal ≠ x.normal
  | .cond c t e => c.freeNames ++ (t.freeNames ++ e.freeNames)
  | _ => []

/-- The symbols of a tree other than keywords, in source order. -/
def symbols : Expr → List Symbol
  | .number v => [.number v]
  | .argument i => [.placeholder i]
  | .name x => [.name x]
  | .binary _ l r => l.symbols ++ r.symbols
  | .letIn x b e => .name x :: (b.symbols ++ e.symbols)
  | .cond c t e => c.symbols ++ (t.symbols ++ e.symbols)
  | .foreign _ => []

/-- All nodes are expressions, and all operators have a meaning. -/
def Readable : Expr → Prop
  | .binary op l r => (∀ name, op ≠ .other name) ∧ l.Readable ∧ r.Readable
  | .letIn _ b e => b.Readable ∧ e.Readable
  | .cond c t e => c.Readable ∧ t.Readable ∧ e.Readable
  | .foreign _ => False
  | _ => True

theorem Readable.children {e : Expr} (h : e.Readable) : ∀ c ∈ e.children, c.Readable := by
  cases e with
  | binary op l r => simpa [Expr.children] using h.2
  | letIn x b e => simpa [Expr.children, Readable] using h
  | cond c t e => simpa [Expr.children, Readable] using h
  | _ => simp [Expr.children]

theorem mem_symbols_of_mem_children {e c : Expr} (hc : c ∈ e.children) {s : Symbol}
    (hs : s ∈ c.symbols) : s ∈ e.symbols := by
  cases e with
  | binary op l r =>
    simp only [children, List.mem_cons, List.not_mem_nil, or_false] at hc
    rcases hc with rfl | rfl <;> simp [symbols, hs]
  | letIn x b e =>
    simp only [children, List.mem_cons, List.not_mem_nil, or_false] at hc
    rcases hc with rfl | rfl <;> simp [symbols, hs]
  | cond a t e =>
    simp only [children, List.mem_cons, List.not_mem_nil, or_false] at hc
    rcases hc with rfl | rfl | rfl <;> simp [symbols, hs]
  | _ => cases hc

/-- A readable node is listed if its values can be written. -/
theorem unlistable?_eq_none {e : Expr} (hread : e.Readable) {room : Room}
    (h : ∀ s ∈ e.symbols, s.value.unwritable? room = none) : e.unlistable? room = none := by
  cases e with
  | number v => exact h _ List.mem_cons_self
  | argument i => exact h _ List.mem_cons_self
  | name x => exact h _ List.mem_cons_self
  | letIn x b e => exact h _ List.mem_cons_self
  | binary op l r =>
    cases op with
    | other name => exact (hread.1 name rfl).elim
    | _ => rfl
  | cond c t e => rfl
  | foreign v => exact hread.elim

theorem argumentList_eq_symbols (e : Expr) :
    e.argumentList = e.symbols.filterMap Symbol.index? := by
  induction e with
  | binary op l r ihl ihr =>
    rw [argumentList_eq]
    simp [argument?, children, symbols, ihl, ihr]
  | letIn x b e ihb ihe =>
    rw [argumentList_eq]
    simp [argument?, children, symbols, ihb, ihe, List.filterMap_cons, Symbol.index?]
  | cond c t e ihc iht ihe =>
    rw [argumentList_eq]
    simp [argument?, children, symbols, ihc, iht, ihe]
  | _ =>
    rw [argumentList_eq]
    simp [argument?, children, symbols, Symbol.index?]

theorem mem_argumentList_of_symbol {e : Expr} {i : Value} (h : .placeholder i ∈ e.symbols) :
    i ∈ e.argumentList := by
  rw [argumentList_eq_symbols]
  exact List.mem_filterMap.2 ⟨_, h, rfl⟩

theorem placeholder_of_argument {e : Expr} {i : Value} (h : i ∈ e.argumentList) :
    .placeholder i ∈ e.symbols := by
  rw [argumentList_eq_symbols] at h
  obtain ⟨s, hs, hindex⟩ := List.mem_filterMap.1 h
  cases s with
  | placeholder j =>
    cases hindex
    exact hs
  | _ => cases hindex

end Expr

namespace Grammar

theorem Derives.readable {layer : Layer} {input : List Symbol} {e : Expr}
    (h : Derives layer input e) : e.Readable := by
  induction h with
  | number v => trivial
  | placeholder i => trivial
  | name x => trivial
  | operand _ ih => exact ih
  | additive hop _ _ ihl ihr => exact ⟨by cases hop <;> simp, ihl, ihr⟩
  | sum _ ih => exact ih
  | comparison hop _ _ ihl ihr => exact ⟨by cases hop <;> simp, ihl, ihr⟩
  | equality _ ih => exact ih
  | cond _ _ _ ihc iht ihe => exact ⟨ihc, iht, ihe⟩
  | conditional _ ih => exact ih
  | letIn _ _ ihb ihe => exact ⟨ihb, ihe⟩

/-- A tree has the symbols that it was read from, keywords left out. -/
theorem Derives.symbols_eq {layer : Layer} {input : List Symbol} {e : Expr}
    (h : Derives layer input e) : e.symbols = input.filter fun s => (operand? s).isSome := by
  induction h with
  | number v => rfl
  | placeholder i => rfl
  | name x => rfl
  | operand _ ih => exact ih
  | additive _ _ _ ihl ihr => simp [Expr.symbols, ihl, ihr, operand?]
  | sum _ ih => exact ih
  | comparison _ _ _ ihl ihr => simp [Expr.symbols, ihl, ihr, operand?]
  | equality _ ih => exact ih
  | cond _ _ _ ihc iht ihe => simp [Expr.symbols, ihc, iht, ihe, operand?]
  | conditional _ ih => exact ih
  | letIn _ _ ihb ihe => simp [Expr.symbols, ihb, ihe, operand?]

end Grammar

/-- A symbol with a value of the sort that its kind has in a program text. -/
def Symbol.Proper : Symbol → Prop
  | .number v => (∃ x, v = .float x) ∨ ∃ handle, v = .undefined handle
  | .keyword k => k ∈ Keyword.all
  | .name x => ∃ s, x = .text s
  | .placeholder i => ∃ n : Nat, 1 ≤ n ∧ i = .int n

theorem readIndex?_some {digits : List Char} {n : Nat} (h : readIndex? digits = .ok (some n)) :
    1 ≤ n ∧ (∀ c ∈ digits, isAsciiDigit c) ∧ digits.length ≤ digitLimit ∧
      n = ofDigits (digits.map fun c => c.toNat - '0'.toNat) := by
  unfold readIndex? at h
  split at h
  · cases h
  next hdigits =>
    split at h
    · cases h
    next hshort =>
      dsimp only at h
      split at h <;> cases h
      have hall : digits.all isAsciiDigit = true := by simp_all
      exact ⟨by omega, List.all_eq_true.1 hall, Nat.le_of_not_lt hshort, rfl⟩

theorem isLong_of_lt {n : Int} (h : n.natAbs < Nat.pow 10 digitLimit) : isLong n = false := by
  unfold isLong
  exact Bool.eq_false_iff.2 fun hble => Nat.not_le_of_lt h (Nat.le_of_ble_eq_true hble)

theorem ofDigits_lt {ds : List Nat} (h : ∀ d ∈ ds, d < 10) :
    ofDigits ds < Nat.pow 10 ds.length := by
  suffices hfold : ∀ n, ds.foldl (fun n d => 10 * n + d) n < (n + 1) * 10 ^ ds.length by
    simpa [ofDigits] using hfold 0
  induction ds with
  | nil => simp
  | cons d ds ih =>
    intro n
    obtain ⟨hd, hds⟩ := List.forall_mem_cons.1 h
    calc (d :: ds).foldl (fun n d => 10 * n + d) n
      _ < (10 * n + d + 1) * 10 ^ ds.length := ih hds _
      _ ≤ (n + 1) * 10 * 10 ^ ds.length := Nat.mul_le_mul_right _ (by omega)
      _ = (n + 1) * 10 ^ (d :: ds).length := by
        rw [List.length_cons, Nat.pow_succ', Nat.mul_assoc]

theorem digit_lt {c : Char} (h : isAsciiDigit c) : c.toNat - '0'.toNat < 10 := by
  have hle : c ≤ '9' := by simpa using (Bool.and_eq_true_iff.1 h).2
  have hnat : c.toNat ≤ '0'.toNat + 9 := hle
  omega

/-- An index that can be read can be written. -/
theorem readIndex?_short {digits : List Char} {n : Nat} (h : readIndex? digits = .ok (some n)) :
    isLong n = false := by
  obtain ⟨-, hdigits, hshort, rfl⟩ := readIndex?_some h
  have hvalues : ∀ d ∈ digits.map fun c => c.toNat - '0'.toNat, d < 10 := by
    intro d hd
    obtain ⟨c, hc, rfl⟩ := List.mem_map.1 hd
    exact digit_lt (hdigits c hc)
  have hlt := ofDigits_lt hvalues
  rw [List.length_map] at hlt
  have hpow (limit : Nat) (hle : digits.length ≤ limit) :
      Nat.pow 10 digits.length ≤ Nat.pow 10 limit := Nat.pow_le_pow_right (by decide) hle
  exact isLong_of_lt (Nat.lt_of_lt_of_le hlt (hpow digitLimit hshort))

theorem classify_proper {word : String} {source : Value} {offset : Int} {t : Token}
    (h : classify word source offset = .ok t) : t.symbol.Proper := by
  rcases classify_cases h with ⟨x, -, rfl⟩ | ⟨k, hk, rfl⟩ | ⟨digits, n, hn, rfl⟩ | rfl
  · exact .inl ⟨x, rfl⟩
  · exact List.mem_of_find?_eq_some hk
  · exact ⟨n, (readIndex?_some hn).1, rfl⟩
  · exact ⟨word, rfl⟩

theorem tokenize_proper {source : String} {tokens : List Token} (h : tokenize source = .ok tokens) :
    ∀ t ∈ tokens, t.symbol.Proper := by
  intro t ht
  obtain ⟨w, -, hw⟩ := Outcome.mem_of_mapM h ht
  exact classify_proper hw

section Reading

variable [Machine]

/-- What holds of all tokens of a sentence holds of the symbols of its tree. -/
theorem Grammar.forall_symbols_of_parse {P : Symbol → Prop} {tokens : List Token} {tree : Expr}
    (h : parse tokens = .ok tree) (htokens : ∀ t ∈ tokens, P t.symbol) :
    ∀ s ∈ tree.symbols, P s := by
  intro s hs
  rw [(parse_sound h).2.2.symbols_eq] at hs
  obtain ⟨t, ht, rfl⟩ := List.mem_map.1 (List.mem_filter.1 hs).1
  exact htokens t ht

theorem Program.symbols_proper {tokens : List Token} {p : Program} (h : compile tokens = .ok p)
    (hproper : ∀ t ∈ tokens, t.symbol.Proper) : ∀ s ∈ p.tree.symbols, s.Proper :=
  Grammar.forall_symbols_of_parse (compile_eq_ok_iff.1 h).1 hproper

theorem Program.compile_nil (p : Program) : compile [] ≠ .ok p := by
  intro h
  obtain ⟨s, more, hnil, -⟩ := (Grammar.parse_sound (compile_eq_ok_iff.1 h).1).2.2.starts
  cases hnil

end Reading

end CurryCalc
