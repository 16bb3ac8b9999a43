import CurryCalc.Proofs.Grammar
import CurryCalc.Proofs.LimitedRoom

/-! Refusals come at the first symbol that no sentence has in its place: what was read before it can
be completed to a sentence, and with it no longer. -/
namespace CurryCalc

/-- The symbol that is asked for, where one is; any name will do for an operand. -/
def Expected.symbol? (x : Value) : Expected → Option Symbol
  | .nameAfterLet => some (.name x)
  | .operandAfter _ => some (.name x)
  | .expression => some (.name x)
  | .inAfterBound => some (.keyword .inWord)
  | .thenAfterTest => some (.keyword .thenWord)
  | .elseAfterBranch => some (.keyword .elseWord)
  | .endOfInput => none
  | .supported _ => none

namespace Grammar
open CurryCalc.SymbolParser Outcome

/-- The symbols can be completed to a phrase of the layer. -/
def Viable (layer : Layer) (front : List Symbol) : Prop := ∃ tail e, Derives layer (front ++ tail) e

theorem Derives.viable {layer : Layer} {front : List Symbol} {e : Expr}
    (h : Derives layer front e) : Viable layer front := ⟨[], e, by simpa using h⟩

theorem Viable.of_append {layer : Layer} {front more : List Symbol}
    (h : Viable layer (front ++ more)) : Viable layer front := by
  obtain ⟨tail, e, h⟩ := h
  exact ⟨more ++ tail, e, by simpa using h⟩

theorem Viable.map {layer layer' : Layer} {front : List Symbol} (h : Viable layer front)
    (hmap : ∀ input e, Derives layer input e → Derives layer' input e) : Viable layer' front := by
  obtain ⟨tail, e, h⟩ := h
  exact ⟨tail, e, hmap _ _ h⟩

theorem derives_name (x : Value) : Derives .binding [.name x] (.name x) :=
  .conditional (.equality (.sum (.operand (.name x))))

theorem Viable.right {k : Keyword} {op : Operator} {front back : List Symbol} {l : Expr}
    (hk : Comparison k op) (hl : Derives .sum front l) (h : Viable .equality back) :
    Viable .equality (front ++ .keyword k :: back) := by
  obtain ⟨tail, r, hr⟩ := h
  exact ⟨tail, _, by simpa using Derives.comparison hk hl hr⟩

theorem derives_part (x : Value) : Derives .conditional [.name x] (.name x) :=
  .equality (.sum (.operand (.name x)))

theorem Viable.test {test : List Symbol} (h : Viable .conditional test) :
    Viable .conditional (.keyword .ifWord :: test) := by
  obtain ⟨tail, c, hc⟩ := h
  have hpart := derives_part .nothing
  exact ⟨tail ++ .keyword .thenWord :: ([.name .nothing] ++ .keyword .elseWord :: [.name .nothing]),
    _, by simpa using Derives.cond hc hpart hpart⟩

theorem Viable.yes {test yes : List Symbol} {c : Expr} (hc : Derives .conditional test c)
    (h : Viable .conditional yes) :
    Viable .conditional (.keyword .ifWord :: (test ++ .keyword .thenWord :: yes)) := by
  obtain ⟨tail, t, ht⟩ := h
  exact ⟨tail ++ .keyword .elseWord :: [.name .nothing], _,
    by simpa using Derives.cond hc ht (derives_part .nothing)⟩

theorem Viable.no {test yes no : List Symbol} {c t : Expr} (hc : Derives .conditional test c)
    (ht : Derives .conditional yes t) (h : Viable .conditional no) :
    Viable .conditional (.keyword .ifWord :: (test ++ .keyword .thenWord ::
      (yes ++ .keyword .elseWord :: no))) := by
  obtain ⟨tail, e, he⟩ := h
  exact ⟨tail, _, by simpa using Derives.cond hc ht he⟩

theorem Viable.bound {bound : List Symbol} (x : Value) (h : Viable .binding bound) :
    Viable .binding (.keyword .letWord :: .name x :: bound) := by
  obtain ⟨tail, b, hb⟩ := h
  exact ⟨tail ++ .keyword .inWord :: [.name x], _, by simpa using Derives.letIn hb (derives_name x)⟩

theorem Viable.body {bound body : List Symbol} {b : Expr} (x : Value)
    (hb : Derives .binding bound b) (h : Viable .binding body) :
    Viable .binding (.keyword .letWord :: .name x :: (bound ++ .keyword .inWord :: body)) := by
  obtain ⟨tail, e, he⟩ := h
  exact ⟨tail, _, by simpa using Derives.letIn hb he⟩

/-- Reading stopped in front of `rest` for a good reason: the symbols before it can be completed,
with what is asked for next if something is, and the next symbol is refused whatever comes after. -/
def Refuses {α : Type} (layer : Layer) (read : List Symbol → Except (Refusal Symbol) α)
    (input : List Symbol) (expected : Expected) (rest : List Symbol) : Prop :=
  ∃ front, input = front ++ rest ∧
    (∀ x, Viable layer (front ++ (expected.symbol? x).toList)) ∧
    ∀ s more, rest = s :: more → ∀ more',
      read (front ++ s :: more') = .error (.wanted expected (s :: more'))

theorem refuse_cons {expected expected' : Expected} {s : Symbol} {more rest : List Symbol}
    (h : refuse expected (s :: more) = .wanted expected' rest) :
    rest = s :: more ∧ (expected' = expected ∨ ∃ k, expected' = .supported k) ∧
      ∀ more', refuse expected (s :: more') = .wanted expected' (s :: more') := by
  cases s with
  | keyword k =>
    cases h
    refine ⟨rfl, ?_, fun _ => rfl⟩
    by_cases hk : k.isUnsupported
    · exact .inr ⟨k, if_pos hk⟩
    · exact .inl (if_neg hk)
  | number | name | placeholder =>
    cases h
    exact ⟨rfl, .inl rfl, fun _ => rfl⟩

/-- Where a name can stand, a refusal for want of an operand asks for what can stand there. -/
theorem viable_operand {layer : Layer} {front : List Symbol} {expected expected' : Expected}
    (hname : ∀ x, Viable layer (front ++ [.name x]))
    (hexpected : ∀ x, expected.symbol? x = some (.name x))
    (h : expected' = expected ∨ ∃ k, expected' = .supported k) (x : Value) :
    Viable layer (front ++ (expected'.symbol? x).toList) := by
  rcases h with rfl | ⟨k, rfl⟩
  · simpa [hexpected x] using hname x
  · simpa [Expected.symbol?] using (hname x).of_append

theorem viable_term {k : Keyword} {op : Operator} {done : List Symbol} {l : Expr}
    (hk : additive? k = some op) (hl : Derives .sum done l) (x : Value) :
    Viable .sum (done ++ [.keyword k] ++ [.name x]) := by
  have hsum := Derives.additive (additive_of_eq_some hk) hl (.name x)
  exact Derives.viable (by simpa using hsum)

theorem sumFrom_refuses {l : Expr} {input rest : List Symbol} {expected : Expected}
    (h : sumFrom l input = .error (.wanted expected rest)) {done : List Symbol}
    (hl : Derives .sum done l) :
    ∃ front, input = front ++ rest ∧
      (∀ x, Viable .sum (done ++ front ++ (expected.symbol? x).toList)) ∧
      ∀ s more, rest = s :: more → ∀ more',
        sumFrom l (front ++ s :: more') = .error (.wanted expected (s :: more')) := by
  fun_induction sumFrom l input generalizing done with
  | case1 l k op hk =>
    cases h
    exact ⟨[.keyword k], rfl, viable_term hk hl, fun s more hs => by cases hs⟩
  | case2 l k op hk s rest' r hs ih =>
    have hsum := Derives.additive (additive_of_eq_some hk) hl (derives_of_operand hs)
    obtain ⟨front, rfl, hviable, hmore⟩ := ih h hsum
    refine ⟨.keyword k :: s :: front, rfl, fun x => by simpa using hviable x, ?_⟩
    intro s' more hrest more'
    simpa [sumFrom, hk, hs] using hmore s' more hrest more'
  | case3 l k op hk s rest' hs =>
    obtain ⟨rfl, hexpected, hmore⟩ := refuse_cons (Except.error.inj h)
    refine ⟨[.keyword k], rfl, viable_operand (viable_term hk hl) (fun _ => rfl) hexpected, ?_⟩
    rintro s _ ⟨⟩ more'
    simp [sumFrom, hk, hs, hmore more']
  | case4 l k rest' hk hu =>
    cases h
    refine ⟨[], rfl, fun x => by simpa [Expected.symbol?] using hl.viable, ?_⟩
    rintro _ _ ⟨⟩ more'
    simp [sumFrom, hk, hu]
  | case5 => cases h
  | case6 => cases h

theorem sum_refuses {expected expected' : Expected} {input rest : List Symbol}
    (hexpected : ∀ x, expected.symbol? x = some (.name x))
    (h : SymbolParser.sum expected input = .error (.wanted expected' rest)) :
    Refuses .sum (SymbolParser.sum expected) input expected' rest := by
  have hname (x : Value) : Viable .sum ([] ++ [.name x]) := Derives.viable (.operand (.name x))
  unfold SymbolParser.sum at h
  split at h
  · cases h
    exact ⟨[], rfl, viable_operand hname hexpected (.inl rfl), fun s more hs => by cases hs⟩
  next s more =>
    split at h
    next l hs =>
      have hl := derives_of_operand hs
      obtain ⟨front, rfl, hviable, hmore⟩ := sumFrom_refuses h (.operand hl)
      refine ⟨s :: front, rfl, hviable, fun s' more hs' more' => ?_⟩
      simpa [SymbolParser.sum, hs] using hmore s' more hs' more'
    next hs =>
      obtain ⟨rfl, hcase, hmore⟩ := refuse_cons (Except.error.inj h)
      refine ⟨[], rfl, viable_operand hname hexpected hcase, ?_⟩
      rintro s _ ⟨⟩ more'
      simp [SymbolParser.sum, hs, hmore more']

theorem equality_refuses {n : Nat} {expected expected' : Expected} {input rest : List Symbol}
    (hexpected : ∀ x, expected.symbol? x = some (.name x))
    (h : SymbolParser.equality n expected input = .error (.wanted expected' rest)) :
    Refuses .equality (SymbolParser.equality n expected) input expected' rest := by
  fun_induction SymbolParser.equality n expected input with
  | case1 => cases h
  | case2 n expected input f hs =>
    cases h
    obtain ⟨front, rfl, hviable, hmore⟩ := sum_refuses hexpected hs
    refine ⟨front, rfl, fun x => (hviable x).map fun _ _ => .sum, fun s more hrest more' => ?_⟩
    rw [SymbolParser.equality, hmore s more hrest more']
  | case3 n expected input l k rest' hs op hk f hf ih =>
    cases h
    obtain ⟨done, rfl, hl, -⟩ := sum_sound hs
    obtain ⟨front, rfl, hviable, hmore⟩ := ih (fun _ => rfl) hf
    have hcomparison := comparison_of_eq_some hk
    refine ⟨done ++ .keyword k :: front, by simp, fun x => ?_, fun s more hrest more' => ?_⟩
    · simpa using Viable.right hcomparison hl (hviable x)
    · rw [List.append_assoc, SymbolParser.equality, hl.reads.2, List.cons_append,
        sumFrom_of_ends (hcomparison.sumEnds _)]
      simp [hk, hmore s more hrest more']
  | case4 => cases h
  | case5 => cases h
  | case6 => cases h

/-- What reading took for a part of a conditional it takes again in front of anything else. -/
theorem conditional_ok {n : Nat} {e : Expr} {input rest : List Symbol}
    (h : SymbolParser.conditional n input = .ok (e, rest)) :
    ∃ front, input = front ++ rest ∧ Derives .conditional front e ∧ PhraseEnds rest ∧
      ∀ rest', PhraseEnds rest' → SymbolParser.conditional n (front ++ rest') = .ok (e, rest') := by
  obtain ⟨front, rfl, he, hrest⟩ := conditional_sound h
  rw [he.reads n rest hrest] at h
  exact ⟨front, rfl, he, hrest, fun rest' hrest' => by rw [he.reads n rest' hrest', within_ok h]⟩

theorem binding_ok {n : Nat} {e : Expr} {input rest : List Symbol}
    (h : SymbolParser.binding n input = .ok (e, rest)) :
    ∃ front, input = front ++ rest ∧ Derives .binding front e ∧ PhraseEnds rest ∧
      ∀ rest', PhraseEnds rest' → SymbolParser.binding n (front ++ rest') = .ok (e, rest') := by
  obtain ⟨front, rfl, he, hrest⟩ := binding_sound h
  rw [he.reads n rest hrest] at h
  exact ⟨front, rfl, he, hrest, fun rest' hrest' => by rw [he.reads n rest' hrest', within_ok h]⟩

theorem viable_nil_part : Viable .conditional [] := ⟨_, _, derives_part .nothing⟩

theorem viable_nil : Viable .binding [] := ⟨_, _, derives_name .nothing⟩

theorem head?_append_cons (front : List Symbol) (s : Symbol) (more more' : List Symbol) :
    (front ++ s :: more').head? = (front ++ s :: more).head? := by
  cases front <;> rfl

theorem conditional_refuses {n : Nat} {expected : Expected} {input rest : List Symbol}
    (h : SymbolParser.conditional n input = .error (.wanted expected rest)) :
    Refuses .conditional (SymbolParser.conditional n) input expected rest := by
  fun_induction SymbolParser.conditional n input generalizing expected rest with
  | case1 => cases h
  | case2 n input ihc ih =>
    rcases error_of_bind h with hc | ⟨⟨c, rest1⟩, hc, h1⟩
    · obtain ⟨front, rfl, hviable, hmore⟩ := ihc hc
      refine ⟨.keyword .ifWord :: front, rfl, fun x => (hviable x).test, ?_⟩
      intro s more hrest more'
      simp [SymbolParser.conditional, hmore s more hrest more']
    obtain ⟨test, rfl, dc, hend, hagain⟩ := conditional_ok hc
    rcases error_of_bind h1 with hthen | ⟨rest2, hthen, h2⟩
    · obtain ⟨hr, hmore⟩ := expect_error hthen
      cases hr
      refine ⟨.keyword .ifWord :: test, rfl, fun x => Viable.yes dc viable_nil_part, ?_⟩
      rintro s more rfl more'
      simp [SymbolParser.conditional, hagain _ (hend.congr more'), hmore s more rfl more']
    cases expect_ok hthen
    have hagain (more : List Symbol) := hagain (.keyword .thenWord :: more)
      (phraseEnds_keyword rfl rfl rfl more)
    rcases error_of_bind h2 with ht | ⟨⟨t, rest3⟩, ht, h3⟩
    · obtain ⟨front, rfl, hviable, hmore⟩ := ih _ ht
      refine ⟨.keyword .ifWord :: (test ++ .keyword .thenWord :: front), by simp, fun x => ?_, ?_⟩
      · simpa using Viable.yes dc (hviable x)
      · intro s more hrest more'
        simp [SymbolParser.conditional, hagain, expect_self, hmore s more hrest more']
    obtain ⟨yes, rfl, dt, hend', hagain'⟩ := conditional_ok ht
    rcases error_of_bind h3 with helse | ⟨rest4, helse, h4⟩
    · obtain ⟨hr, hmore⟩ := expect_error helse
      cases hr
      refine ⟨.keyword .ifWord :: (test ++ .keyword .thenWord :: yes), by simp, fun x => ?_, ?_⟩
      · simpa [Expected.symbol?] using Viable.no dc dt viable_nil_part
      · rintro s more rfl more'
        simp [SymbolParser.conditional, hagain, expect_self, hagain' _ (hend'.congr more'),
          hmore s more rfl more']
    cases expect_ok helse
    have hagain' (more : List Symbol) := hagain' (.keyword .elseWord :: more)
      (phraseEnds_keyword rfl rfl rfl more)
    rcases error_of_bind h4 with he | ⟨⟨e, rest5⟩, he, h5⟩
    · obtain ⟨front, rfl, hviable, hmore⟩ := ih _ he
      refine ⟨.keyword .ifWord :: (test ++ .keyword .thenWord ::
        (yes ++ .keyword .elseWord :: front)), by simp, fun x => ?_, ?_⟩
      · simpa using Viable.no dc dt (hviable x)
      · intro s more hrest more'
        simp [SymbolParser.conditional, hagain, expect_self, hagain', hmore s more hrest more']
    cases h5
  | case3 n input hne =>
    obtain ⟨front, rfl, hviable, hmore⟩ := equality_refuses (fun _ => rfl) h
    refine ⟨front, rfl, fun x => (hviable x).map fun _ _ => .equality, ?_⟩
    rintro s more rfl more'
    rw [conditional_of_head, hmore s more rfl more']
    rw [head?_append_cons front s more]
    exact fun hhead => (List.head?_eq_some_iff.1 hhead).elim fun tail htail => hne tail htail

theorem binding_refuses {n : Nat} {expected : Expected} {input rest : List Symbol}
    (h : SymbolParser.binding n input = .error (.wanted expected rest)) :
    Refuses .binding (SymbolParser.binding n) input expected rest := by
  fun_induction SymbolParser.binding n input generalizing expected rest with
  | case1 => cases h
  | case2 n x input ihb ih =>
    rcases error_of_bind h with hb | ⟨⟨b, rest1⟩, hb, h1⟩
    · obtain ⟨front, rfl, hviable, hmore⟩ := ihb hb
      refine ⟨.keyword .letWord :: .name x :: front, rfl, fun y => (hviable y).bound x, ?_⟩
      intro s more hrest more'
      simp [SymbolParser.binding, hmore s more hrest more']
    obtain ⟨bound, rfl, db, hend, hagain⟩ := binding_ok hb
    rcases error_of_bind h1 with hin | ⟨rest2, hin, h2⟩
    · obtain ⟨hr, hmore⟩ := expect_error hin
      cases hr
      refine ⟨.keyword .letWord :: .name x :: bound, rfl, fun y => Viable.body x db viable_nil, ?_⟩
      rintro s more rfl more'
      simp [SymbolParser.binding, hagain _ (hend.congr more'), hmore s more rfl more']
    cases expect_ok hin
    have hagain (more : List Symbol) := hagain (.keyword .inWord :: more)
      (phraseEnds_keyword rfl rfl rfl more)
    rcases error_of_bind h2 with he | ⟨⟨e, rest3⟩, he, h3⟩
    · obtain ⟨front, rfl, hviable, hmore⟩ := ih _ he
      refine ⟨.keyword .letWord :: .name x :: (bound ++ .keyword .inWord :: front), by simp,
        fun y => ?_, ?_⟩
      · simpa using Viable.body x db (hviable y)
      · intro s more hrest more'
        simp [SymbolParser.binding, hagain, expect_self, hmore s more hrest more']
    cases h3
  | case3 n input hname =>
    cases h
    refine ⟨[.keyword .letWord], rfl, fun x => Viable.bound x viable_nil, ?_⟩
    rintro s more rfl more'
    cases s with
    | name x => exact (hname x more rfl).elim
    | number | keyword | placeholder => rfl
  | case4 n input hname hlet =>
    obtain ⟨front, rfl, hviable, hmore⟩ := conditional_refuses h
    refine ⟨front, rfl, fun x => (hviable x).map fun _ _ => .conditional, ?_⟩
    rintro s more rfl more'
    rw [binding_of_head, hmore s more rfl more']
    rw [head?_append_cons front s more]
    exact fun hhead => (List.head?_eq_some_iff.1 hhead).elim fun tail htail => hlet tail htail

theorem sentence_refuses {n : Nat} {expected : Expected} {input rest : List Symbol}
    (h : sentence n input = .error (.wanted expected rest)) :
    Refuses .binding (sentence n) input expected rest := by
  unfold sentence at h
  split at h
  next r hread =>
    cases h
    obtain ⟨front, rfl, hviable, hmore⟩ := binding_refuses hread
    refine ⟨front, rfl, hviable, fun s more hrest more' => ?_⟩
    rw [sentence, hmore s more hrest more']
  · cases h
  next e rest' hne hread =>
    cases h
    obtain ⟨front, rfl, he, hend, hagain⟩ := binding_ok hread
    refine ⟨front, rfl, fun x => by simpa [Expected.symbol?] using he.viable, ?_⟩
    rintro s more rfl more'
    rw [sentence, hagain _ (hend.congr more')]

theorem not_derives_of_refused {n : Nat} {expected : Expected} {input rest : List Symbol}
    (h : sentence n input = .error (.wanted expected rest)) (e : Expr) :
    ¬ Derives .binding input e := by
  intro he
  rw [sentence_of_derives he] at h
  split at h <;> cases h

/-- Only the reader of symbols refuses a token for its place. -/
theorem refused_of_unexpected [Machine] {tokens : List Token} {expected source : Value}
    {found : Option Token} {position start stop : Int}
    (h : parse tokens =
      .error (.fault (.unexpected expected found position source start stop))) :
    ∃ wanted rest,
      sentence nestingLimit (tokens.map Token.symbol) = .error (.wanted wanted rest) ∧
      parse tokens =
        .error (.fault (unexpectedAt tokens (tokens.length - rest.length) wanted)) := by
  rcases parse_cases tokens with ⟨f, hf, hp⟩ | ⟨-, ⟨_, -, hp⟩ | ⟨-, hp⟩ | hrefused⟩
  · cases hp.symm.trans h
    rcases Value.unspellable?_cases hf with hf | hf <;> cases hf
  · cases hp.symm.trans h
  · cases hp.symm.trans h
  · exact hrefused

/-- A refusal names the first token that no sentence has in its place, or the end of the tokens.
What comes before can be completed to a sentence; with that token it cannot. -/
theorem parse_refuses_first_violation [Machine] {tokens : List Token} {expected source : Value}
    {found : Option Token} {position start stop : Int}
    (h : parse tokens =
      .error (.fault (.unexpected expected found position source start stop))) :
    ∃ p : Nat, position = p ∧ p ≤ tokens.length ∧ found = tokens[p]? ∧
      (∃ more t, Spells (tokens.take p ++ more) t) ∧
      (p < tokens.length → ∀ more t, ¬ Spells (tokens.take (p + 1) ++ more) t) ∧
      (p = tokens.length → ∀ t, ¬ Spells tokens t) := by
  obtain ⟨wanted, rest, hs, hp⟩ := refused_of_unexpected h
  cases hp.symm.trans h
  obtain ⟨front, hinput, hviable, hmore⟩ := sentence_refuses hs
  have hlength : tokens.length = front.length + rest.length := by
    simpa using congrArg List.length hinput
  have hfront : (tokens.take front.length).map Token.symbol = front := by
    rw [List.map_take, hinput, List.take_left]
  refine ⟨tokens.length - rest.length, rfl, Nat.sub_le _ _, rfl, ?_, fun hlt more t ht => ?_,
    fun _ t => not_derives_of_refused hs t⟩
  all_goals rw [show tokens.length - rest.length = front.length by omega] at *
  · obtain ⟨tail, e, he⟩ := (hviable .nothing).of_append
    refine ⟨tail.map fun s => ⟨s, ""⟩, e, ?_⟩
    simpa [Spells, hfront, Function.comp_def] using he
  · cases rest with
    | nil => exact absurd hlt (by simp [hlength])
    | cons s tail =>
      have hnext : (tokens.take (front.length + 1)).map Token.symbol = front ++ [s] := by
        rw [List.map_take, hinput, List.take_length_add_append]
        rfl
      apply not_derives_of_refused (hmore s tail rfl (more.map Token.symbol)) t
      simpa [Spells, hnext] using ht

section StandardMachine
attribute [local instance] Machine.standard

/-- In `let x $1 then x` the word `then` is the first violation. -/
theorem parse_refuses_then_for_in :
    (∃ more t, Spells ([⟨.keyword .letWord, "let"⟩, ⟨.name "x", "x"⟩,
      ⟨.placeholder (.int 1), "$1"⟩] ++ more) t) ∧
    ∀ more t, ¬ Spells ([⟨.keyword .letWord, "let"⟩, ⟨.name "x", "x"⟩,
      ⟨.placeholder (.int 1), "$1"⟩, ⟨.keyword .thenWord, "then"⟩] ++ more) t := by
  obtain ⟨p, hp, -, -, hviable, hrefused, -⟩ := @parse_refuses_first_violation _
    [⟨.keyword .letWord, "let"⟩, ⟨.name "x", "x"⟩, ⟨.placeholder (.int 1), "$1"⟩,
      ⟨.keyword .thenWord, "then"⟩, ⟨.name "x", "x"⟩] _ _ _ _ _ _ rfl
  obtain rfl : 3 = p := Int.ofNat.inj hp
  exact ⟨hviable, hrefused (by decide)⟩

end StandardMachine

end Grammar
end CurryCalc
