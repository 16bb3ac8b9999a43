import CurryCalc.Expr.Parser
import CurryCalc.Proofs.Outcome

/-! Reading symbols instead of tokens, layer by layer as tokens are read. The two readers go in
lockstep: they stop at the same place for the same reason, or give the same tree with the same rest.
So what a token was written as never decides how it is read. -/
namespace CurryCalc

namespace SymbolParser

def refuse (expected : Expected) (rest : List Symbol) : Refusal Symbol :=
  match rest with
  | .keyword k :: _ => .wanted (if k.isUnsupported then .supported k else expected) rest
  | _ => .wanted expected rest

def sumFrom (left : Expr) : List Symbol → Except (Refusal Symbol) (Expr × List Symbol)
  | .keyword k :: rest =>
    match additive? k with
    | some op =>
      match rest with
      | [] => .error (.wanted (.operandAfter k) [])
      | s :: rest =>
        match operand? s with
        | some right => sumFrom (.binary op left right) rest
        | none => .error (refuse (.operandAfter k) (s :: rest))
    | none =>
      if k.isUnsupported then .error (.wanted (.supported k) (.keyword k :: rest))
      else .ok (left, .keyword k :: rest)
  | rest => .ok (left, rest)

def sum (expected : Expected) : List Symbol → Except (Refusal Symbol) (Expr × List Symbol)
  | [] => .error (.wanted expected [])
  | s :: rest =>
    match operand? s with
    | some left => sumFrom left rest
    | none => .error (refuse expected (s :: rest))

def equality : Nat → Expected → List Symbol → Except (Refusal Symbol) (Expr × List Symbol)
  | 0, _, _ => .error .tooDeep
  | budget + 1, expected, input =>
    match sum expected input with
    | .error r => .error r
    | .ok (left, .keyword k :: rest) =>
      match comparison? k with
      | some op =>
        match equality budget (.operandAfter k) rest with
        | .error r => .error r
        | .ok (right, rest) => .ok (.binary op left right, rest)
      | none => .ok (left, .keyword k :: rest)
    | .ok (left, rest) => .ok (left, rest)

def expect (k : Keyword) (expected : Expected) (input : List Symbol) :
    Except (Refusal Symbol) (List Symbol) :=
  match input with
  | .keyword k' :: rest => if k' = k then .ok rest else .error (.wanted expected input)
  | _ => .error (.wanted expected input)

def conditional : Nat → List Symbol → Except (Refusal Symbol) (Expr × List Symbol)
  | 0, _ => .error .tooDeep
  | budget + 1, .keyword .ifWord :: rest => do
    let (test, rest) ← conditional budget rest
    let rest ← expect .thenWord .thenAfterTest rest
    let (yes, rest) ← conditional budget rest
    let rest ← expect .elseWord .elseAfterBranch rest
    let (no, rest) ← conditional budget rest
    return (.cond test yes no, rest)
  | budget + 1, input => equality (budget + 1) .expression input

def binding : Nat → List Symbol → Except (Refusal Symbol) (Expr × List Symbol)
  | 0, _ => .error .tooDeep
  | budget + 1, .keyword .letWord :: .name x :: rest => do
    let (bound, rest) ← binding budget rest
    let rest ← expect .inWord .inAfterBound rest
    let (body, rest) ← binding budget rest
    return (.letIn x bound body, rest)
  | _ + 1, .keyword .letWord :: rest => .error (.wanted .nameAfterLet rest)
  | budget + 1, input => conditional (budget + 1) input

def sentence (budget : Nat) (input : List Symbol) : Except (Refusal Symbol) Expr :=
  match binding budget input with
  | .error r => .error r
  | .ok (e, []) => .ok e
  | .ok (_, rest) => .error (.wanted .endOfInput rest)

end SymbolParser

/-- Reading tokens and reading their symbols ends in the same way, with the same symbols left. -/
inductive Lockstep {α β : Type} (same : α → β → Prop) :
    Except (Refusal Token) α → Except (Refusal Symbol) β → Prop
  | ok {a : α} {b : β} (h : same a b) : Lockstep same (.ok a) (.ok b)
  | wanted (expected : Expected) (rest : List Token) :
      Lockstep same (.error (.wanted expected rest))
        (.error (.wanted expected (rest.map Token.symbol)))
  | tooDeep : Lockstep same (.error .tooDeep) (.error .tooDeep)

/-- The tree and the symbols of the rest are the same. -/
def SameRead (a : Expr × List Token) (b : Expr × List Symbol) : Prop :=
  a.1 = b.1 ∧ a.2.map Token.symbol = b.2

namespace Lockstep

variable {α β γ δ : Type} {same : α → β → Prop} {same' : γ → δ → Prop}

theorem bind {x : Except (Refusal Token) α} {y : Except (Refusal Symbol) β} (h : Lockstep same x y)
    {f : α → Except (Refusal Token) γ} {g : β → Except (Refusal Symbol) δ}
    (hnext : ∀ a b, same a b → Lockstep same' (f a) (g b)) :
    Lockstep same' (x >>= f) (y >>= g) := by
  cases h with
  | ok h => exact hnext _ _ h
  | wanted expected rest => exact .wanted expected rest
  | tooDeep => exact .tooDeep

theorem ok_of_ok {x : Except (Refusal Token) (Expr × List Token)}
    {y : Except (Refusal Symbol) (Expr × List Symbol)} (h : Lockstep SameRead x y) {e : Expr}
    {rest : List Token} (hx : x = .ok (e, rest)) : y = .ok (e, rest.map Token.symbol) := by
  subst hx
  cases h with
  | @ok _ b h =>
    obtain ⟨_, _⟩ := b
    obtain ⟨rfl, rfl⟩ := h
    rfl

theorem error_of_error {x : Except (Refusal Token) α} {y : Except (Refusal Symbol) β}
    (h : Lockstep same x y) {r : Refusal Token} (hx : x = .error r) :
    ∃ r', y = .error r' ∧ Lockstep same' (.error r) (.error r') := by
  subst hx
  cases h with
  | wanted expected rest => exact ⟨_, rfl, .wanted expected rest⟩
  | tooDeep => exact ⟨_, rfl, .tooDeep⟩

theorem of_map_eq_cons {input : List Token} {s : Symbol} {rest : List Symbol}
    (h : input.map Token.symbol = s :: rest) :
    ∃ lexeme more, input = ⟨s, lexeme⟩ :: more ∧ more.map Token.symbol = rest := by
  obtain ⟨⟨symbol, lexeme⟩, more, rfl, rfl, hmore⟩ := List.map_eq_cons_iff.1 h
  exact ⟨lexeme, more, rfl, hmore⟩

/-- The first of the symbols is a keyword only if the first token is one. -/
theorem map_ne_keyword {input : List Token}
    (h : ∀ k lexeme rest, input = ⟨.keyword k, lexeme⟩ :: rest → False) (k : Keyword)
    (rest : List Symbol) (hmap : input.map Token.symbol = .keyword k :: rest) : False := by
  obtain ⟨lexeme, more, hinput, -⟩ := of_map_eq_cons hmap
  exact h k lexeme more hinput

theorem refuse (expected : Expected) (rest : List Token) :
    Lockstep same (.error (Parser.refuse expected rest))
      (.error (SymbolParser.refuse expected (rest.map Token.symbol))) := by
  unfold Parser.refuse
  split
  next k lexeme rest => exact .wanted _ (⟨.keyword k, lexeme⟩ :: rest)
  next hne =>
    rw [SymbolParser.refuse]
    · exact .wanted expected rest
    · exact map_ne_keyword hne

theorem sumFrom (left : Expr) (input : List Token) :
    Lockstep SameRead (Parser.sumFrom left input)
      (SymbolParser.sumFrom left (input.map Token.symbol)) := by
  fun_induction Parser.sumFrom left input with
  | case1 left k lexeme op hop =>
    simp only [List.map_cons, List.map_nil, SymbolParser.sumFrom, hop]
    exact .wanted _ []
  | case2 left k lexeme op hop t rest right ht ih =>
    simpa only [List.map_cons, SymbolParser.sumFrom, hop, ht] using ih
  | case3 left k lexeme op hop t rest ht =>
    simp only [List.map_cons, SymbolParser.sumFrom, hop, ht]
    exact refuse (.operandAfter k) (t :: rest)
  | case4 left k lexeme rest hop hk =>
    simp only [List.map_cons, SymbolParser.sumFrom, hop, hk, if_true]
    exact .wanted _ (⟨.keyword k, lexeme⟩ :: rest)
  | case5 left k lexeme rest hop hk =>
    simp only [List.map_cons, SymbolParser.sumFrom, hop, hk]
    exact .ok ⟨rfl, rfl⟩
  | case6 left input hne =>
    rw [SymbolParser.sumFrom]
    · exact .ok ⟨rfl, rfl⟩
    · exact map_ne_keyword hne

theorem sum (expected : Expected) (input : List Token) :
    Lockstep SameRead (Parser.sum expected input)
      (SymbolParser.sum expected (input.map Token.symbol)) := by
  cases input with
  | nil => exact .wanted expected []
  | cons t rest =>
    rw [Parser.sum, List.map_cons, SymbolParser.sum]
    cases operand? t.symbol with
    | some left => exact sumFrom left rest
    | none => exact refuse expected (t :: rest)

theorem equality (n : Nat) (expected : Expected) (input : List Token) :
    Lockstep SameRead (Parser.equality n expected input)
      (SymbolParser.equality n expected (input.map Token.symbol)) := by
  fun_induction Parser.equality n expected input with
  | case1 => exact .tooDeep
  | case2 n expected input r hsum =>
    obtain ⟨r', hsum', hr⟩ := error_of_error (sum expected input) hsum
    simpa only [SymbolParser.equality, hsum'] using hr
  | case3 n expected input left k lexeme rest hsum op hop r hright ih =>
    obtain ⟨r', hright', hr⟩ := error_of_error ih hright
    simpa only [SymbolParser.equality, ok_of_ok (sum expected input) hsum, List.map_cons, hop,
      hright'] using hr
  | case4 n expected input left k lexeme rest hsum op hop right rest' hright ih =>
    simp only [SymbolParser.equality, ok_of_ok (sum expected input) hsum, List.map_cons, hop,
      ok_of_ok ih hright]
    exact .ok ⟨rfl, rfl⟩
  | case5 n expected input left k lexeme rest hsum hop =>
    simp only [SymbolParser.equality, ok_of_ok (sum expected input) hsum, List.map_cons, hop]
    exact .ok ⟨rfl, rfl⟩
  | case6 n expected input left rest hne hsum =>
    rw [SymbolParser.equality, ok_of_ok (sum expected input) hsum]
    split
    next hread => cases hread
    next k more hread =>
      exact (map_ne_keyword hne k more (Prod.mk.inj (Except.ok.inj hread)).2).elim
    next hread =>
      obtain ⟨rfl, rfl⟩ := Prod.mk.inj (Except.ok.inj hread)
      exact .ok ⟨rfl, rfl⟩

theorem expect (k : Keyword) (expected : Expected) (input : List Token) :
    Lockstep (fun rest rest' => rest.map Token.symbol = rest') (Parser.expect k expected input)
      (SymbolParser.expect k expected (input.map Token.symbol)) := by
  unfold Parser.expect
  split
  next k' lexeme rest =>
    rw [List.map_cons, SymbolParser.expect]
    split
    · exact .ok rfl
    · exact .wanted expected (⟨.keyword k', lexeme⟩ :: rest)
  next hne =>
    rw [SymbolParser.expect]
    · exact .wanted expected input
    · exact map_ne_keyword hne

theorem conditional (n : Nat) (input : List Token) :
    Lockstep SameRead (Parser.conditional n input)
      (SymbolParser.conditional n (input.map Token.symbol)) := by
  fun_induction Parser.conditional n input with
  | case1 => exact .tooDeep
  | case2 n lexeme rest ihtest ih =>
    rw [List.map_cons, SymbolParser.conditional]
    refine bind ihtest ?_
    rintro ⟨test, rest⟩ ⟨_, _⟩ ⟨rfl, rfl⟩
    refine bind (expect _ _ _) ?_
    rintro rest _ rfl
    refine bind (ih _) ?_
    rintro ⟨yes, rest⟩ ⟨_, _⟩ ⟨rfl, rfl⟩
    refine bind (expect _ _ _) ?_
    rintro rest _ rfl
    refine bind (ih _) ?_
    rintro ⟨no, rest⟩ ⟨_, _⟩ ⟨rfl, rfl⟩
    exact .ok ⟨rfl, rfl⟩
  | case3 n input hne =>
    rw [SymbolParser.conditional]
    · exact equality (n + 1) .expression input
    · intro rest hmap
      obtain ⟨lexeme, more, hinput, -⟩ := of_map_eq_cons hmap
      exact hne lexeme more hinput

theorem binding (n : Nat) (input : List Token) :
    Lockstep SameRead (Parser.binding n input)
      (SymbolParser.binding n (input.map Token.symbol)) := by
  fun_induction Parser.binding n input with
  | case1 => exact .tooDeep
  | case2 n lexeme x lexeme' rest ihbound ih =>
    rw [List.map_cons, List.map_cons, SymbolParser.binding]
    refine bind ihbound ?_
    rintro ⟨bound, rest⟩ ⟨_, _⟩ ⟨rfl, rfl⟩
    refine bind (expect _ _ _) ?_
    rintro rest _ rfl
    refine bind (ih _) ?_
    rintro ⟨body, rest⟩ ⟨_, _⟩ ⟨rfl, rfl⟩
    exact .ok ⟨rfl, rfl⟩
  | case3 n lexeme rest hne =>
    rw [List.map_cons, SymbolParser.binding]
    · exact .wanted _ rest
    · intro x more hmap
      obtain ⟨lexeme', more', hrest, -⟩ := of_map_eq_cons hmap
      exact hne x lexeme' more' hrest
  | case4 n input hname hne =>
    rw [SymbolParser.binding]
    · exact conditional (n + 1) input
    · intro x rest hmap
      obtain ⟨lexeme, more, hinput, -⟩ := of_map_eq_cons hmap
      exact hne lexeme more hinput
    · intro rest hmap
      obtain ⟨lexeme, more, hinput, -⟩ := of_map_eq_cons hmap
      exact hne lexeme more hinput

/-- Reading a sequence of tokens to its end and reading its symbols to their end go in lockstep. -/
theorem sentence (n : Nat) (input : List Token) :
    Lockstep Eq (Parser.sentence n input) (SymbolParser.sentence n (input.map Token.symbol)) := by
  have hread := binding n input
  rw [Parser.sentence, SymbolParser.sentence]
  generalize Parser.binding n input = read, SymbolParser.binding n (input.map Token.symbol) = read'
    at hread
  cases hread with
  | wanted expected rest => exact .wanted expected rest
  | tooDeep => exact .tooDeep
  | @ok a b h =>
    obtain ⟨e, rest⟩ := a
    obtain ⟨_, _⟩ := b
    obtain ⟨rfl, rfl⟩ := h
    cases rest with
    | nil => exact .ok rfl
    | cons t rest => exact .wanted _ (t :: rest)

end Lockstep

end CurryCalc
