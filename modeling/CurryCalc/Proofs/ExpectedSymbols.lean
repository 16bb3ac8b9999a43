import CurryCalc.Proofs.ViablePrefix

/-! What a refusal asks for. Whatever it asks for could stand in the place of the symbol that was
found, and the end of the input is asked for only after a sentence. A reserved word without a
meaning is named wherever it is found, except right after `let`, where any symbol but a name is
refused alike. -/
namespace CurryCalc

/-- Refusals that are about what comes next in general: not about the end of the input, a name to be
bound or a reserved word without a meaning. -/
def Expected.isGeneral : Expected → Bool
  | .inAfterBound | .thenAfterTest | .elseAfterBranch | .operandAfter _ | .expression => true
  | .endOfInput | .nameAfterLet | .supported _ => false

theorem Expected.ne_endOfInput {e : Expected} (h : e.isGeneral = true) : e ≠ .endOfInput := by
  rintro rfl
  cases h

namespace Grammar
open CurryCalc.SymbolParser Outcome

/-- What a refusal says that comes after `front` and before `rest`. A name is asked for exactly
after `let`, and a reserved word without a meaning is named exactly if it comes next and not after
`let`. -/
structure Blames (front : List Symbol) (expected : Expected) (rest : List Symbol) : Prop where
  nameAfterLet : expected = .nameAfterLet ↔ front.getLast? = some (.keyword .letWord)
  reserved : ∀ k, expected = .supported k ↔
    rest.head? = some (.keyword k) ∧ k.isUnsupported = true ∧
      front.getLast? ≠ some (.keyword .letWord)

/-- Reading a part of a sentence stopped before `rest`. The end of the input is never asked for
within a sentence. -/
def StopsAt (input : List Symbol) (expected : Expected) (rest : List Symbol) : Prop :=
  expected ≠ .endOfInput ∧ ∃ front, input = front ++ rest ∧ Blames front expected rest

section Blame

variable {front rest : List Symbol} {expected : Expected}

theorem blames_general (hexpected : expected.isGeneral = true)
    (hfront : front.getLast? ≠ some (.keyword .letWord))
    (hrest : ∀ k more, rest = .keyword k :: more → k.isUnsupported = false) :
    Blames front expected rest := by
  have hname : expected ≠ .nameAfterLet := by
    rintro rfl
    cases hexpected
  have hsupported (k : Keyword) : expected ≠ .supported k := by
    rintro rfl
    cases hexpected
  refine ⟨iff_of_false hname hfront, fun k => iff_of_false (hsupported k) ?_⟩
  rintro ⟨hhead, hk, -⟩
  obtain ⟨more, rfl⟩ := List.head?_eq_some_iff.1 hhead
  simp [hrest k more rfl] at hk

theorem blames_reserved {k : Keyword} (hk : k.isUnsupported = true)
    (hfront : front.getLast? ≠ some (.keyword .letWord)) (more : List Symbol) :
    Blames front (.supported k) (.keyword k :: more) := by
  refine ⟨iff_of_false nofun hfront, fun k' => ?_⟩
  constructor
  · rintro ⟨⟩
    exact ⟨rfl, hk, hfront⟩
  · rintro ⟨⟨⟩, -, -⟩
    rfl

/-- A refusal for want of something general names a reserved word without a meaning if there is
one. -/
theorem blames_refuse {s : Symbol} {more : List Symbol} {expected' : Expected}
    (hexpected : expected.isGeneral = true) (hfront : front.getLast? ≠ some (.keyword .letWord))
    (h : refuse expected (s :: more) = .wanted expected' rest) :
    expected' ≠ .endOfInput ∧ rest = s :: more ∧ Blames front expected' rest := by
  have hend := Expected.ne_endOfInput hexpected
  cases s with
  | keyword k =>
    cases h
    by_cases hk : k.isUnsupported = true
    · rw [if_pos hk]
      exact ⟨nofun, rfl, blames_reserved hk hfront more⟩
    · rw [if_neg hk]
      refine ⟨hend, rfl, blames_general hexpected hfront ?_⟩
      rintro _ _ ⟨⟩
      exact Bool.eq_false_iff.2 hk
  | number | name | placeholder =>
    cases h
    exact ⟨hend, rfl, blames_general hexpected hfront nofun⟩

/-- What was read before does not matter once a symbol other than `let` has been read. -/
theorem StopsAt.after {input : List Symbol} (h : StopsAt input expected rest) (done : List Symbol)
    {s : Symbol} (hs : s ≠ .keyword .letWord) : StopsAt (done ++ s :: input) expected rest := by
  obtain ⟨hend, front, rfl, hblames⟩ := h
  have hlast : (done ++ s :: front).getLast? = some (.keyword .letWord) ↔
      front.getLast? = some (.keyword .letWord) := by
    cases front with
    | nil => simp [hs]
    | cons s' more => simp [List.getLast?_append, List.getLast?_cons]
  refine ⟨hend, done ++ s :: front, by simp, hblames.nameAfterLet.trans hlast.symm, fun k => ?_⟩
  rw [hblames.reserved k, ne_eq, ne_eq, hlast]

theorem Derives.ends {layer : Layer} {input : List Symbol} {e : Expr} (h : Derives layer input e) :
    ∃ init s, input = init ++ [s] ∧ (operand? s).isSome := by
  induction h with
  | number v => exact ⟨[], _, rfl, rfl⟩
  | placeholder i => exact ⟨[], _, rfl, rfl⟩
  | name x => exact ⟨[], _, rfl, rfl⟩
  | operand _ ih => exact ih
  | @additive k _ front _ _ _ _ _ _ _ ih =>
    obtain ⟨init, s, rfl, hs⟩ := ih
    exact ⟨front ++ .keyword k :: init, s, by simp, hs⟩
  | sum _ ih => exact ih
  | @comparison k _ front _ _ _ _ _ _ _ ih =>
    obtain ⟨init, s, rfl, hs⟩ := ih
    exact ⟨front ++ .keyword k :: init, s, by simp, hs⟩
  | equality _ ih => exact ih
  | @cond test yes _ _ _ _ _ _ _ _ _ ih =>
    obtain ⟨init, s, rfl, hs⟩ := ih
    exact ⟨.keyword .ifWord :: (test ++ .keyword .thenWord :: (yes ++ .keyword .elseWord :: init)),
      s, by simp, hs⟩
  | conditional _ ih => exact ih
  | @letIn x bound _ _ _ _ _ _ ih =>
    obtain ⟨init, s, rfl, hs⟩ := ih
    exact ⟨.keyword .letWord :: .name x :: (bound ++ .keyword .inWord :: init), s, by simp, hs⟩

theorem Derives.last_ne_let {layer : Layer} {phrase : List Symbol} {e : Expr}
    (h : Derives layer phrase e) (done : List Symbol) :
    (done ++ phrase).getLast? ≠ some (.keyword .letWord) := by
  obtain ⟨init, s, rfl, hs⟩ := h.ends
  rw [← List.append_assoc, List.getLast?_concat]
  rintro ⟨⟩
  cases hs

theorem stopsAt_phrase {layer : Layer} {phrase : List Symbol} {e : Expr}
    (h : Derives layer phrase e) (hrest : PhraseEnds rest) (hexpected : expected.isGeneral = true)
    (done : List Symbol) : StopsAt (done ++ phrase ++ rest) expected rest := by
  refine ⟨Expected.ne_endOfInput hexpected, done ++ phrase, rfl,
    blames_general hexpected (h.last_ne_let done) ?_⟩
  exact fun k more hk => (hrest k more hk).2.1

end Blame

section Layers

variable {input rest : List Symbol} {expected : Expected}

theorem operand_ne_let {s : Symbol} {e : Expr} (h : operand? s = some e) :
    s ≠ .keyword .letWord := by
  rintro rfl
  cases h

theorem additive_ne_let {k : Keyword} {op : Operator} (h : additive? k = some op) :
    Symbol.keyword k ≠ .keyword .letWord := by
  rintro ⟨⟩
  cases h

theorem comparison_ne_let {k : Keyword} {op : Operator} (h : comparison? k = some op) :
    Symbol.keyword k ≠ .keyword .letWord := by
  rintro ⟨⟩
  cases h

theorem sumFrom_stops {l : Expr} (h : sumFrom l input = .error (.wanted expected rest)) :
    StopsAt input expected rest := by
  fun_induction sumFrom l input with
  | case1 l k op hk =>
    cases h
    have hasked : (Expected.operandAfter k).isGeneral = true := rfl
    exact ⟨Expected.ne_endOfInput hasked, [.keyword k], rfl,
      blames_general hasked (by simpa using additive_ne_let hk) (by simp)⟩
  | case2 l k op hk s more r hs ih => exact (ih h).after [.keyword k] (operand_ne_let hs)
  | case3 l k op hk s more hs =>
    have hlast : [Symbol.keyword k].getLast? ≠ some (.keyword .letWord) := by
      simpa using additive_ne_let hk
    have hasked : (Expected.operandAfter k).isGeneral = true := rfl
    obtain ⟨hend, rfl, hblames⟩ := blames_refuse hasked hlast (Except.error.inj h)
    exact ⟨hend, [.keyword k], rfl, hblames⟩
  | case4 l k more hk hu =>
    cases h
    exact ⟨by simp, [], rfl, blames_reserved hu (by simp) more⟩
  | case5 => cases h
  | case6 => cases h

theorem sum_stops {asked : Expected} (hasked : asked.isGeneral = true)
    (h : SymbolParser.sum asked input = .error (.wanted expected rest)) :
    StopsAt input expected rest := by
  unfold SymbolParser.sum at h
  split at h
  · cases h
    exact ⟨Expected.ne_endOfInput hasked, [], rfl, blames_general hasked (by simp) (by simp)⟩
  next s more =>
    split at h
    next l hs => exact (sumFrom_stops h).after [] (operand_ne_let hs)
    next hs =>
      have hlast : ([] : List Symbol).getLast? ≠ some (.keyword .letWord) := by simp
      obtain ⟨hend, rfl, hblames⟩ := blames_refuse hasked hlast (Except.error.inj h)
      exact ⟨hend, [], rfl, hblames⟩

theorem equality_stops {n : Nat} {asked : Expected} (hasked : asked.isGeneral = true)
    (h : SymbolParser.equality n asked input = .error (.wanted expected rest)) :
    StopsAt input expected rest := by
  fun_induction SymbolParser.equality n asked input with
  | case1 => cases h
  | case2 n asked input f hs =>
    cases h
    exact sum_stops hasked hs
  | case3 n asked input l k more hs op hk f hf ih =>
    cases h
    obtain ⟨done, rfl, -, -⟩ := sum_sound hs
    exact (ih rfl hf).after done (comparison_ne_let hk)
  | case4 => cases h
  | case5 => cases h
  | case6 => cases h

theorem conditional_stops {n : Nat}
    (h : SymbolParser.conditional n input = .error (.wanted expected rest)) :
    StopsAt input expected rest := by
  fun_induction SymbolParser.conditional n input generalizing expected rest with
  | case1 => cases h
  | case2 n input ihc ih =>
    rcases error_of_bind h with hc | ⟨⟨c, rest1⟩, hc, h1⟩
    · exact (ihc hc).after [] (by simp)
    obtain ⟨test, rfl, dc, hend⟩ := conditional_sound hc
    rcases error_of_bind h1 with hthen | ⟨rest2, hthen, h2⟩
    · cases (expect_error hthen).1
      exact stopsAt_phrase dc hend rfl [.keyword .ifWord]
    cases expect_ok hthen
    rcases error_of_bind h2 with ht | ⟨⟨t, rest3⟩, ht, h3⟩
    · exact (ih _ ht).after (.keyword .ifWord :: test) (by simp)
    obtain ⟨yes, rfl, dt, hend'⟩ := conditional_sound ht
    rcases error_of_bind h3 with helse | ⟨rest4, helse, h4⟩
    · cases (expect_error helse).1
      have hasked : Expected.elseAfterBranch.isGeneral = true := rfl
      have hstops := stopsAt_phrase dt hend' hasked
        (.keyword .ifWord :: (test ++ [.keyword .thenWord]))
      simpa using hstops
    cases expect_ok helse
    rcases error_of_bind h4 with he | ⟨⟨e, rest5⟩, he, h5⟩
    · have hstops := (ih _ he).after (s := .keyword .elseWord)
        (.keyword .ifWord :: (test ++ .keyword .thenWord :: yes)) (by simp)
      simpa using hstops
    cases h5
  | case3 n input hne => exact equality_stops rfl h

theorem binding_stops {n : Nat}
    (h : SymbolParser.binding n input = .error (.wanted expected rest)) :
    StopsAt input expected rest := by
  fun_induction SymbolParser.binding n input generalizing expected rest with
  | case1 => cases h
  | case2 n x input ihb ih =>
    rcases error_of_bind h with hb | ⟨⟨b, rest1⟩, hb, h1⟩
    · exact (ihb hb).after [.keyword .letWord] (by simp)
    obtain ⟨bound, rfl, db, hend⟩ := binding_sound hb
    rcases error_of_bind h1 with hin | ⟨rest2, hin, h2⟩
    · cases (expect_error hin).1
      exact stopsAt_phrase db hend rfl [.keyword .letWord, .name x]
    cases expect_ok hin
    rcases error_of_bind h2 with he | ⟨⟨e, rest3⟩, he, h3⟩
    · exact (ih _ he).after (.keyword .letWord :: .name x :: bound) (by simp)
    cases h3
  | case3 n input hname =>
    cases h
    exact ⟨by simp, [.keyword .letWord], rfl, iff_of_true rfl rfl,
      fun k => iff_of_false (by simp) fun hk => hk.2.2 rfl⟩
  | case4 n input hname hlet => exact conditional_stops h

/-- The end of the input is asked for after a sentence, and in front of neither a reserved word
without a meaning nor anything after `let`. -/
theorem sentence_stops {n : Nat} (h : sentence n input = .error (.wanted expected rest)) :
    ∃ front, input = front ++ rest ∧ Blames front expected rest ∧
      (expected = .endOfInput → ∃ e, Derives .binding front e) := by
  unfold sentence at h
  split at h
  next r hread =>
    cases h
    obtain ⟨hend, front, hinput, hblames⟩ := binding_stops hread
    exact ⟨front, hinput, hblames, fun hexpected => (hend hexpected).elim⟩
  · cases h
  next e rest' hne hread =>
    cases h
    obtain ⟨front, rfl, he, hend⟩ := binding_sound hread
    have hlast := he.last_ne_let []
    rw [List.nil_append] at hlast
    refine ⟨front, rfl, ⟨iff_of_false nofun hlast, fun k => iff_of_false nofun ?_⟩,
      fun _ => ⟨e, he⟩⟩
    rintro ⟨hhead, hk, -⟩
    obtain ⟨more, rfl⟩ := List.head?_eq_some_iff.1 hhead
    simp [(hend k more rfl).2.1] at hk

end Layers

def CanGoOn (tokens : List Token) : Prop := ∃ more t, Spells (tokens ++ more) t

theorem canGoOn_of_viable {tokens : List Token} (h : Viable .binding (tokens.map Token.symbol)) :
    CanGoOn tokens := by
  obtain ⟨tail, e, he⟩ := h
  refine ⟨tail.map fun s => ⟨s, ""⟩, e, ?_⟩
  simpa [Spells, Function.comp_def] using he

theorem take_of_map_eq {tokens : List Token} {front rest : List Symbol}
    (h : tokens.map Token.symbol = front ++ rest) :
    tokens.length - rest.length = front.length ∧
      (tokens.take front.length).map Token.symbol = front ∧
      tokens[front.length]?.map Token.symbol = rest.head? := by
  have hlength : tokens.length = front.length + rest.length := by
    simpa using congrArg List.length h
  refine ⟨by omega, ?_, ?_⟩
  · rw [List.map_take, h, List.take_left]
  · rw [← List.getElem?_map, h, List.getElem?_append_right (Nat.le_refl _), Nat.sub_self,
      List.head?_eq_getElem?]

end Grammar

namespace Expected
open Grammar (CanGoOn Spells)

def Fits (front : List Token) : Expected → Prop
  | .endOfInput => ∃ t, Spells front t
  | .nameAfterLet | .operandAfter _ | .expression =>
      ∀ x lexeme, CanGoOn (front ++ [⟨.name x, lexeme⟩])
  | .inAfterBound => ∀ lexeme, CanGoOn (front ++ [⟨.keyword .inWord, lexeme⟩])
  | .thenAfterTest => ∀ lexeme, CanGoOn (front ++ [⟨.keyword .thenWord, lexeme⟩])
  | .elseAfterBranch => ∀ lexeme, CanGoOn (front ++ [⟨.keyword .elseWord, lexeme⟩])
  | .supported _ => CanGoOn front

theorem fits_of_viable {expected : Expected} {front : List Token}
    (hviable : ∀ x, Grammar.Viable .binding
      (front.map Token.symbol ++ (expected.symbol? x).toList))
    (hcomplete : expected = .endOfInput → ∃ t, Spells front t) : expected.Fits front := by
  cases expected with
  | endOfInput => exact hcomplete rfl
  | nameAfterLet | operandAfter k | expression =>
    intro x lexeme
    exact Grammar.canGoOn_of_viable (by simpa [symbol?] using hviable x)
  | inAfterBound | thenAfterTest | elseAfterBranch =>
    intro lexeme
    exact Grammar.canGoOn_of_viable (by simpa [symbol?] using hviable .nothing)
  | supported k => exact Grammar.canGoOn_of_viable (by simpa [symbol?] using hviable .nothing)

section Texts

/-- A refusal with one and the same keyword in place of the one that it quotes. -/
def kind : Expected → Expected
  | .operandAfter _ => .operandAfter .plus
  | .supported _ => .supported .multiply
  | e => e

/-- The kind of refusal that a text starts like; two characters are enough. -/
def ofOpening : List Char → Expected
  | ['e', 'n'] => .endOfInput
  | ['i', 'd'] => .nameAfterLet
  | ['\'', 'i'] => .inAfterBound
  | ['\'', 't'] => .thenAfterTest
  | ['\'', 'e'] => .elseAfterBranch
  | ['o', 'p'] => .operandAfter .plus
  | ['e', 'x'] => .expression
  | _ => .supported .multiply

theorem take_quoting {front : String} (h : 2 ≤ front.toList.length) (middle back : String) :
    (front ++ middle ++ back).toList.take 2 = front.toList.take 2 := by
  rw [String.append_assoc, String.toList_append, List.take_append_of_le_length h]

theorem ofOpening_text (e : Expected) : ofOpening (e.text.toList.take 2) = e.kind := by
  cases e with
  | operandAfter k =>
    have hopening : (operandAfter k).text.toList.take 2 = ['o', 'p'] :=
      take_quoting (by decide) k.word "'"
    rewrite [hopening]
    rfl
  | supported k =>
    have hopening : (supported k).text.toList.take 2 = ['a', ' '] :=
      take_quoting (by decide) k.word "' is reserved but not supported)"
    rewrite [hopening]
    rfl
  | endOfInput | nameAfterLet | inAfterBound | thenAfterTest | elseAfterBranch | expression => rfl

theorem kind_eq_of_text {e e' : Expected} (h : e.text = e'.text) : e.kind = e'.kind := by
  rw [← ofOpening_text, h, ofOpening_text]

theorem Fits.of_text {e e' : Expected} {front : List Token} (h : e.Fits front)
    (htext : e'.text = e.text) : e'.Fits front := by
  have hkind (e : Expected) : e.kind.Fits front ↔ e.Fits front := by
    cases e <;> exact Iff.rfl
  rwa [← hkind, kind_eq_of_text htext, hkind]

theorem isUnsupported_iff {k : Keyword} : k.isUnsupported = true ↔ k = .multiply ∨ k = .divide := by
  cases k <;> simp [Keyword.isUnsupported]

theorem supported_of_text {e : Expected} {k : Keyword} (hk : k.isUnsupported = true)
    (he : ∀ k', e = .supported k' → k'.isUnsupported = true)
    (htext : e.text = (supported k).text) : e = .supported k := by
  have hkind : e.kind = .supported .multiply := kind_eq_of_text htext
  cases e with
  | supported k' =>
    rcases isUnsupported_iff.1 hk with rfl | rfl
    · rcases isUnsupported_iff.1 (he k' rfl) with rfl | rfl
      · rfl
      · exact absurd htext (by decide)
    · rcases isUnsupported_iff.1 (he k' rfl) with rfl | rfl
      · exact absurd htext (by decide)
      · rfl
  | endOfInput | nameAfterLet | inAfterBound | thenAfterTest | elseAfterBranch | expression =>
    cases hkind
  | operandAfter k' => cases hkind

end Texts

end Expected

namespace Grammar
open CurryCalc.SymbolParser

/-- What a refusal asks for could stand in the place of the token that was found: with the keyword
or any name put there the tokens still start a sentence, and where the end of the input is asked for
they are one. Its text tells which of these it is. Only `multiply` and `divide` are said to be
reserved but not supported, and that wherever they are found unless the token before is `let`. -/
theorem parse_asks_for_what_fits [Machine] {tokens : List Token} {expected source : Value}
    {found : Option Token} {position start stop : Int}
    (h : parse tokens =
      .error (.fault (.unexpected expected found position source start stop))) :
    ∃ (p : Nat) (wanted : Expected), position = p ∧ found = tokens[p]? ∧
      expected = .text wanted.text ∧
      (∀ e : Expected, e.text = wanted.text → e.Fits (tokens.take p)) ∧
      (∀ k, wanted = .supported k → k.isUnsupported = true) ∧
      ∀ k : Keyword, k.isUnsupported = true →
        (expected = .text (Expected.supported k).text ↔
          found.map Token.symbol = some (.keyword k) ∧
            (tokens.take p).getLast?.map Token.symbol ≠ some (.keyword .letWord)) := by
  obtain ⟨wanted, rest, hs, hp⟩ := refused_of_unexpected h
  cases hp.symm.trans h
  obtain ⟨front, hinput, hblames, hcomplete⟩ := sentence_stops hs
  obtain ⟨front', hinput', hviable, -⟩ := sentence_refuses hs
  obtain rfl : front = front' := List.append_cancel_right (hinput.symm.trans hinput')
  obtain ⟨hposition, hfront, hnext⟩ := take_of_map_eq hinput
  have hunsupported (k : Keyword) (hk : wanted = .supported k) : k.isUnsupported = true :=
    ((hblames.reserved k).1 hk).2.1
  have hfits : wanted.Fits (tokens.take front.length) := by
    apply Expected.fits_of_viable
    · rwa [hfront]
    · simpa only [Spells, hfront] using hcomplete
  refine ⟨front.length, wanted, by rw [hposition], by rw [hposition], rfl,
    fun e he => hfits.of_text he, hunsupported, fun k hk => ?_⟩
  have hreserved := hblames.reserved k
  rw [hposition, hnext, ← List.getLast?_map, hfront]
  constructor
  · intro htext
    obtain ⟨hhead, -, hlast⟩ := hreserved.1
      (Expected.supported_of_text hk hunsupported (Value.text.inj htext))
    exact ⟨hhead, hlast⟩
  · rintro ⟨hhead, hlast⟩
    rw [hreserved.2 ⟨hhead, hk, hlast⟩]

section StandardMachine
attribute [local instance] Machine.standard

/-- In `let multiply $1 in x` a name is asked for after `let`, and any name could go there; in
`let y if x divide y` the word `divide` is said to be reserved. -/
theorem parse_asks_for_what_fits_reserved :
    (∃ found source start stop, parse [⟨.keyword .letWord, "let"⟩, ⟨.keyword .multiply, "multiply"⟩,
        ⟨.placeholder (.int 1), "$1"⟩, ⟨.keyword .inWord, "in"⟩, ⟨.name "x", "x"⟩] =
      .error (.fault (.unexpected "identifier after 'let'" found 1 source start stop))) ∧
    Expected.nameAfterLet.Fits [⟨.keyword .letWord, "let"⟩] ∧
    ∃ expected source start stop, parse [⟨.keyword .letWord, "let"⟩, ⟨.name "y", "y"⟩,
        ⟨.keyword .ifWord, "if"⟩, ⟨.name "x", "x"⟩, ⟨.keyword .divide, "divide"⟩,
        ⟨.name "y", "y"⟩] =
      .error (.fault
        (.unexpected expected (some ⟨.keyword .divide, "divide"⟩) 4 source start stop)) ∧
      expected = .text (Expected.supported .divide).text := by
  refine ⟨⟨_, _, _, _, rfl⟩, ?_, _, _, _, _, rfl, ?_⟩
  · obtain ⟨p, wanted, hp, -, hwanted, hfits, -⟩ := @parse_asks_for_what_fits _
      [⟨.keyword .letWord, "let"⟩, ⟨.keyword .multiply, "multiply"⟩,
        ⟨.placeholder (.int 1), "$1"⟩, ⟨.keyword .inWord, "in"⟩, ⟨.name "x", "x"⟩] _ _ _ _ _ _ rfl
    obtain rfl : 1 = p := Int.ofNat.inj hp
    exact hfits .nameAfterLet (Value.text.inj hwanted)
  · obtain ⟨p, wanted, hp, -, -, -, -, hreserved⟩ := @parse_asks_for_what_fits _
      [⟨.keyword .letWord, "let"⟩, ⟨.name "y", "y"⟩, ⟨.keyword .ifWord, "if"⟩, ⟨.name "x", "x"⟩,
        ⟨.keyword .divide, "divide"⟩, ⟨.name "y", "y"⟩] _ _ _ _ _ _ rfl
    obtain rfl : 4 = p := Int.ofNat.inj hp
    exact (hreserved .divide rfl).2 ⟨rfl, by decide⟩

end StandardMachine

end Grammar
end CurryCalc
