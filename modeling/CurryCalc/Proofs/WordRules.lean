import CurryCalc.Proofs.Outcome
import CurryCalc.Proofs.NumberConversion
import CurryCalc.Proofs.TextPlaces
import CurryCalc.Proofs.Wording
import CurryCalc.Token.Classify
import Mathlib.Data.Nat.Digits.Defs

/-! The word rules. A text up to its first comment is read word by word: each word is a number, a
reserved word, a placeholder or a name, in this order, and the first word that looks like a
placeholder and is none is blamed at the place where it stands. -/
namespace CurryCalc

section Code

/-- A text up to its first comment. -/
def IsCode (s code : String) : Prop :=
  (code = s ∧ ∀ front back, s ≠ front ++ commentMark ++ back) ∨
    ∃ rest, s = code ++ commentMark ++ rest ∧
      ∀ front back, s = front ++ commentMark ++ back → code.length ≤ front.length

theorem isCode_cutBefore (s : String) : IsCode s (cutBefore commentMark s) := by
  have hmark : commentMark ≠ "" := by decide
  unfold cutBefore
  rcases findOffset?_cases hmark s with ⟨hnone, hnot⟩ | ⟨front, rest, hfound, hs, hfirst⟩
  · rw [hnone]
    exact .inl ⟨rfl, hnot⟩
  · have htake : String.ofList (s.toList.take front.length) = front := by
      rw [hs, toList_append_append, ← String.length_toList, List.take_left, String.ofList_toList]
    rw [hfound]
    dsimp only
    rw [htake]
    exact .inr ⟨rest, hs, hfirst⟩

theorem IsCode.eq_cutBefore {s code : String} (h : IsCode s code) :
    code = cutBefore commentMark s := by
  rcases h with ⟨rfl, hnone⟩ | ⟨rest, hs, hfirst⟩
  · rcases isCode_cutBefore code with ⟨hcut, -⟩ | ⟨rest, hs, -⟩
    · exact hcut.symm
    · exact (hnone _ _ hs).elim
  · rcases isCode_cutBefore s with ⟨-, hnone⟩ | ⟨rest', hs', hfirst'⟩
    · exact (hnone _ _ hs).elim
    · have hlength := Nat.le_antisymm (hfirst _ _ hs') (hfirst' _ _ hs)
      rw [← String.length_toList, ← String.length_toList] at hlength
      have hboth :=
        List.prefix_of_prefix_length_le (prefix_of_eq_append hs) (prefix_of_eq_append hs')
        (Nat.le_of_eq hlength)
      exact String.toList_injective (hboth.eq_of_length hlength)

end Code

section Indices

def indexValue (digits : List Char) : Nat :=
  Nat.ofDigits 10 (digits.reverse.map fun c => c.toNat - '0'.toNat)

/-- What follows the mark of a placeholder. -/
structure IsIndex (digits : List Char) : Prop where
  nonempty : digits ≠ []
  ascii : ∀ c ∈ digits, isAsciiDigit c
  positive : 1 ≤ indexValue digits

instance (digits : List Char) : Decidable (IsIndex digits) :=
  decidable_of_iff (digits ≠ [] ∧ digits.all isAsciiDigit = true ∧ 1 ≤ indexValue digits)
    ⟨fun h => ⟨h.1, List.all_eq_true.1 h.2.1, h.2.2⟩,
      fun h => ⟨h.nonempty, List.all_eq_true.2 h.ascii, h.positive⟩⟩

/-- A word with the mark of a placeholder but without an index after it. -/
def IsMalformed (w : String) : Prop := ∃ rest, w.toList = '$' :: rest ∧ ¬ IsIndex rest

instance (w : String) : Decidable (IsMalformed w) :=
  decidable_of_iff (w.toList.head? = some '$' ∧ ¬ IsIndex w.toList.tail) <| by
    rw [IsMalformed]
    cases w.toList <;> simp

/-- A word with the mark of a placeholder and more digits after it than are ever converted. -/
def IsOverlong (w : String) : Prop :=
  ∃ digits, w.toList = '$' :: digits ∧ (∀ c ∈ digits, isAsciiDigit c) ∧ digitLimit < digits.length

instance (w : String) : Decidable (IsOverlong w) :=
  decidable_of_iff (w.toList.head? = some '$' ∧ w.toList.tail.all isAsciiDigit = true ∧
      digitLimit < w.toList.tail.length) <| by
    rw [IsOverlong]
    cases w.toList <;> simp

variable {digits : List Char}

theorem ofDigits_eq (ds : List Nat) : ofDigits ds = Nat.ofDigits 10 ds.reverse := by
  rw [Nat.ofDigits_eq_foldr, List.foldr_reverse, ofDigits]
  congr 1
  funext n d
  exact Nat.add_comm _ _

theorem readIndex?_eq (hshort : (∀ c ∈ digits, isAsciiDigit c) → digits.length ≤ digitLimit) :
    readIndex? digits = .ok (if IsIndex digits then some (indexValue digits) else none) := by
  have hvalue : ofDigits (digits.map fun c => c.toNat - '0'.toNat) = indexValue digits := by
    rw [ofDigits_eq, indexValue, List.map_reverse]
  rw [readIndex?]
  split
  next hshape =>
    have hnot : ¬ IsIndex digits := by
      rintro ⟨hne, hall, -⟩
      simp [hne, List.all_eq_true.2 hall] at hshape
    rw [if_neg hnot]
  next hshape =>
    obtain ⟨hne, hall⟩ : digits ≠ [] ∧ ∀ c ∈ digits, isAsciiDigit c := by simpa using hshape
    rw [if_neg (Nat.not_lt.2 (hshort hall)), hvalue]
    dsimp only
    by_cases hpositive : 1 ≤ indexValue digits
    · rw [if_neg (Nat.not_lt.2 hpositive), if_pos ⟨hne, hall, hpositive⟩]
    · rw [if_pos (Nat.lt_of_not_le hpositive), if_neg fun h => hpositive h.positive]

end Indices

section Rules

variable {w : String} {digits : List Char}

/-- The rules for one word. The token keeps the word as its lexeme. -/
inductive ReadsAs (w : String) : Token → Prop where
  | number {x : Binary64} : NumberLiteral.IsNumeral w.toList → readNumber? w = some x →
      ReadsAs w ⟨.number (.float x), w⟩
  | keyword {k : Keyword} : ¬ NumberLiteral.IsNumeral w.toList → k ∈ Keyword.all → k.word = w →
      ReadsAs w ⟨.keyword k, w⟩
  | placeholder {digits : List Char} : w.toList = '$' :: digits → IsIndex digits →
      ReadsAs w ⟨.placeholder (.int (indexValue digits)), w⟩
  | name : ¬ NumberLiteral.IsNumeral w.toList → (∀ k ∈ Keyword.all, k.word ≠ w) →
      (∀ rest, w.toList ≠ '$' :: rest) → ReadsAs w ⟨.name (.text w), w⟩

theorem ReadsAs.lexeme_eq {t : Token} (h : ReadsAs w t) : t.lexeme = w := by
  cases h <;> rfl

theorem lexemes_of_readsAs {ws : List Word} {tokens : List Token}
    (h : List.Forall₂ (fun w t => ReadsAs w.text t) ws tokens) :
    tokens.map Token.lexeme = ws.map Word.text := by
  induction h with
  | nil => rfl
  | cons hread _ ih => rw [List.map_cons, List.map_cons, hread.lexeme_eq, ih]

theorem isNumeral_of_readNumber? {x : Binary64} (h : readNumber? w = some x) :
    NumberLiteral.IsNumeral w.toList := by
  obtain ⟨literal, hread, -⟩ := Option.map_eq_some_iff.1 h
  exact isNumber_iff.1 (by rw [isNumber, hread]; rfl)

theorem not_isNumeral_of_readNumber? (h : readNumber? w = none) :
    ¬ NumberLiteral.IsNumeral w.toList := by
  rw [← isNumber_iff, isNumber, Option.map_eq_none_iff.1 h]
  exact Bool.false_ne_true

theorem ofWord?_cases (w : String) : (∃ k ∈ Keyword.all, k.word = w ∧ Keyword.ofWord? w = some k) ∨
    (∀ k ∈ Keyword.all, k.word ≠ w) ∧ Keyword.ofWord? w = none := by
  unfold Keyword.ofWord?
  cases hfind : Keyword.all.find? fun k => k.word == w with
  | some k =>
    have hword : k.word = w := by simpa using List.find?_some hfind
    exact .inl ⟨k, List.mem_of_find?_eq_some hfind, hword, rfl⟩
  | none => exact .inr ⟨by simpa using hfind, rfl⟩

/-- A word with the mark of a placeholder is neither a number nor reserved. -/
theorem readNumber?_marked (hw : w.toList = '$' :: digits) : readNumber? w = none := by
  rw [readNumber?, hw]
  rfl

theorem ofWord?_marked (hw : w.toList = '$' :: digits) : Keyword.ofWord? w = none := by
  rcases ofWord?_cases w with ⟨k, hk, rfl, -⟩ | ⟨-, hnone⟩
  · have hall : Keyword.all.all (fun k => k.word.toList.head? != some '$') = true := by decide
    have hhead := List.all_eq_true.1 hall k hk
    simp [hw] at hhead
  · exact hnone

theorem classify_marked (hw : w.toList = '$' :: digits) (hlong : ¬ IsOverlong w) (source : String)
    (offset : Int) :
    (IsIndex digits →
      classify w source offset = .ok ⟨.placeholder (.int (indexValue digits)), w⟩) ∧
    (¬ IsIndex digits →
      classify w source offset = .error (.fault (.malformedArgument w source offset))) := by
  have hshort : (∀ c ∈ digits, isAsciiDigit c) → digits.length ≤ digitLimit := fun hall =>
    Nat.le_of_not_lt fun hlimit => hlong ⟨digits, hw, hall, hlimit⟩
  have hread := readIndex?_eq hshort
  rw [classify_eq, readNumber?_marked hw, ofWord?_marked hw]
  dsimp only
  split
  next digits' hw' =>
    obtain rfl : digits' = digits := (List.cons.inj (hw'.symm.trans hw)).2
    rw [hread]
    constructor
    · intro hindex
      rw [if_pos hindex]
    · intro hindex
      rw [if_neg hindex]
      rfl
  next hnot => exact (hnot digits hw).elim

theorem classify_malformed (h : IsMalformed w) (hlong : ¬ IsOverlong w) (source : String)
    (offset : Int) :
    classify w source offset = .error (.fault (.malformedArgument w source offset)) := by
  obtain ⟨rest, hw, hindex⟩ := h
  exact (classify_marked hw hlong source offset).2 hindex

theorem classify_readsAs (h : ¬ IsMalformed w) (hlong : ¬ IsOverlong w) (source : String)
    (offset : Int) : ∃ t, classify w source offset = .ok t ∧ ReadsAs w t := by
  by_cases hmark : ∃ digits, w.toList = '$' :: digits
  · obtain ⟨digits, hw⟩ := hmark
    have hindex : IsIndex digits := by
      by_contra hnot
      exact h ⟨digits, hw, hnot⟩
    exact ⟨_, (classify_marked hw hlong source offset).1 hindex, .placeholder hw hindex⟩
  · rw [classify_eq]
    cases hnumber : readNumber? w with
    | some x => exact ⟨_, rfl, .number (isNumeral_of_readNumber? hnumber) hnumber⟩
    | none =>
      have hnot := not_isNumeral_of_readNumber? hnumber
      rcases ofWord?_cases w with ⟨k, hk, hword, hof⟩ | ⟨hnone, hof⟩
      · rw [hof]
        exact ⟨_, rfl, .keyword hnot hk hword⟩
      · have hmark : ∀ rest, w.toList ≠ '$' :: rest := not_exists.1 hmark
        refine ⟨⟨.name (.text w), w⟩, ?_, .name hnot hnone hmark⟩
        rw [hof]
        dsimp only
        split
        next digits hw => exact (hmark digits hw).elim
        · rfl

end Rules

section Lists

variable {α β ε : Type} {f : α → Except ε β}

theorem Outcome.mapM_forall₂ {R : α → β → Prop} {inputs : List α}
    (h : ∀ a ∈ inputs, ∃ b, f a = .ok b ∧ R a b) :
    ∃ results, inputs.mapM f = .ok results ∧ List.Forall₂ R inputs results := by
  induction inputs with
  | nil => exact ⟨[], rfl, .nil⟩
  | cons a inputs ih =>
    obtain ⟨⟨b, hb, hab⟩, hinputs⟩ := List.forall_mem_cons.1 h
    obtain ⟨results, hresults, hall⟩ := ih hinputs
    refine ⟨b :: results, ?_, .cons hab hall⟩
    rw [List.mapM_cons, hb, Outcome.bind_ok, hresults]
    rfl

/-- What fails first decides. -/
theorem Outcome.mapM_of_first {before after : List α} {a : α} {e : ε}
    (hbefore : ∀ b ∈ before, ∃ r, f b = .ok r) (ha : f a = .error e) :
    (before ++ a :: after).mapM f = .error e := by
  induction before with
  | nil =>
    rw [List.nil_append, List.mapM_cons, ha]
    rfl
  | cons b before ih =>
    obtain ⟨⟨r, hr⟩, hbefore⟩ := List.forall_mem_cons.1 hbefore
    rw [List.cons_append, List.mapM_cons, hr, Outcome.bind_ok, ih hbefore]
    rfl

end Lists

section Overlong

theorem classify_overlong {w : String} (h : IsOverlong w) (source : Value) (offset : Int) :
    classify w source offset = .error (.longIndex (w.length - 1)) := by
  obtain ⟨digits, hw, hall, hlong⟩ := h
  have hne : digits ≠ [] := by
    rintro rfl
    cases hlong
  have hread : readIndex? digits = .error (.longIndex digits.length) := by
    rw [readIndex?, if_neg (by simp [hne, List.all_eq_true.2 hall]), if_pos hlong]
  have hlength : w.length - 1 = digits.length := by
    rw [← String.length_toList, hw, List.length_cons, Nat.add_sub_cancel]
  rw [classify_eq, readNumber?_marked hw, ofWord?_marked hw, hlength]
  dsimp only
  split
  next digits' hw' =>
    obtain rfl : digits' = digits := (List.cons.inj (hw'.symm.trans hw)).2
    rw [hread]
  next hnot => exact (hnot digits hw).elim

def zeroIndex (n : Nat) : String := String.ofList ('$' :: List.replicate n '0')

theorem zeroIndex_toList (n : Nat) : (zeroIndex n).toList = '$' :: List.replicate n '0' :=
  String.toList_ofList

theorem mem_zeroIndex {n : Nat} {c : Char} (h : c ∈ (zeroIndex n).toList) : c = '$' ∨ c = '0' := by
  rw [zeroIndex_toList] at h
  exact (List.mem_cons.1 h).imp_right List.eq_of_mem_replicate

theorem isWord_zeroIndex (n : Nat) : IsWord (zeroIndex n) := by
  refine ⟨by simp [zeroIndex_toList], fun c hc => ?_⟩
  rcases mem_zeroIndex hc with rfl | rfl <;> rfl

/-- No mark of any kind is in a placeholder. -/
theorem not_occurs_zeroIndex {part : String} {n : Nat} {c : Char} (hc : c ∈ part.toList)
    (hne : c ≠ '$' ∧ c ≠ '0') : ¬ part.toList <:+: (zeroIndex n).toList := by
  intro hin
  rcases mem_zeroIndex (hin.subset hc) with h | h
  · exact hne.1 h
  · exact hne.2 h

theorem isMalformed_zeroIndex (n : Nat) : IsMalformed (zeroIndex n) := by
  refine ⟨_, zeroIndex_toList n, fun h => absurd h.positive ?_⟩
  simp [indexValue]

theorem isOverlong_zeroIndex {n : Nat} (h : digitLimit < n) : IsOverlong (zeroIndex n) := by
  refine ⟨_, zeroIndex_toList n, fun c hc => ?_, by simpa using h⟩
  rw [List.eq_of_mem_replicate hc]
  rfl

theorem classify_zeroIndex {n : Nat} (h : digitLimit < n) (source : Value) (offset : Int) :
    classify (zeroIndex n) source offset = .error (.longIndex n) := by
  have hlength : (zeroIndex n).length - 1 = n := by
    rw [← String.length_toList, zeroIndex_toList, List.length_cons, List.length_replicate,
      Nat.add_sub_cancel]
  rw [classify_overlong (isOverlong_zeroIndex h), hlength]

theorem tokenize_zeroIndex {n : Nat} (h : digitLimit < n) :
    tokenize (zeroIndex n) = .error (.longIndex n) := by
  have hcut : cutBefore commentMark (zeroIndex n) = zeroIndex n := by
    apply String.toList_injective
    rw [cutBefore_toList (by decide), cutList_of_not_occurs]
    exact not_occurs_zeroIndex (c := ';') (by decide) (by decide)
  have hwords : (wordsAt (zeroIndex n)).map Word.text = [zeroIndex n] :=
    (isWord_zeroIndex n).words_eq
  obtain ⟨w, hw, htext⟩ := List.map_eq_singleton_iff.1 hwords
  rw [tokenize, hcut, hw, List.mapM_cons, htext, classify_zeroIndex h]
  rfl

end Overlong

/-- A malformed word is shown within the text that it stands in. -/
theorem IsRun.exists_notice {code : String} {w : Word} (hw : IsRun code w) (style : Style) :
    ∃ n, (Fault.malformedArgument w.text code w.offset).notice style = .ok n ∧ n.expr = code ∧
      n.start = w.offset ∧ n.stop = (w.offset : Int) + w.text.length ∧
      excerpt n.expr n.start n.stop = w.text := by
  obtain ⟨n, hn⟩ := Fault.worded_malformedArgument w.text (.inr ⟨code, rfl⟩) w.offset style
  obtain ⟨hexpr, hstart, hstop⟩ := Fault.shows_malformedArgument hn
  refine ⟨n, hn, hexpr, hstart, hstop, ?_⟩
  rw [hexpr, hstart, hstop]
  exact hw.excerpt_eq

/-- A text up to its first comment is read word by word. If no word is malformed, each word is read
by the rules, in order. Otherwise the first malformed word is blamed, where it stands. Words with
more digits than are ever converted are left out. -/
theorem tokenize_follows_word_rules (s : String) :
    (∃ code ws, IsCode s code ∧ RunsOf code ws) ∧
    ∀ code ws, IsCode s code → RunsOf code ws →
      ((∀ w ∈ ws, ¬ IsMalformed w.text ∧ ¬ IsOverlong w.text) →
        ∃ tokens, tokenize s = .ok tokens ∧ tokens.map Token.lexeme = ws.map Word.text ∧
          List.Forall₂ (fun w t => ReadsAs w.text t) ws tokens) ∧
      ∀ before w after, ws = before ++ w :: after →
        (∀ v ∈ before, ¬ IsMalformed v.text ∧ ¬ IsOverlong v.text) →
        IsMalformed w.text → ¬ IsOverlong w.text →
        tokenize s = .error (.fault (.malformedArgument w.text code w.offset)) ∧
        ∀ style, ∃ n, (Fault.malformedArgument w.text code w.offset).notice style = .ok n ∧
          n.expr = code ∧ n.start = w.offset ∧ n.stop = (w.offset : Int) + w.text.length ∧
          excerpt n.expr n.start n.stop = w.text := by
  refine ⟨⟨_, _, isCode_cutBefore s, runsOf_wordsAt _⟩, fun code ws hcode hws => ?_⟩
  obtain rfl := hcode.eq_cutBefore
  obtain rfl := hws.eq_wordsAt
  constructor
  · intro hgood
    obtain ⟨tokens, htokens, hreads⟩ := Outcome.mapM_forall₂ fun w hw =>
      classify_readsAs (hgood w hw).1 (hgood w hw).2 (cutBefore commentMark s) w.offset
    exact ⟨tokens, htokens, lexemes_of_readsAs hreads, hreads⟩
  · intro before w after hsplit hbefore hbad hshort
    have hfirst :
        ∀ v ∈ before, ∃ t, classify v.text (cutBefore commentMark s) v.offset = .ok t := by
      intro v hv
      obtain ⟨t, ht, -⟩ := classify_readsAs (hbefore v hv).1 (hbefore v hv).2
        (cutBefore commentMark s) v.offset
      exact ⟨t, ht⟩
    have hw : IsRun (cutBefore commentMark s) w :=
      (hws.mem_iff w).1 (by rw [hsplit]; simp)
    refine ⟨?_, hw.exists_notice⟩
    rw [tokenize, hsplit]
    exact Outcome.mapM_of_first hfirst (classify_malformed hbad hshort _ _)

/-- A word in the middle of the text is blamed, although `x$0` has the same characters in it and a
later word is malformed too. -/
theorem tokenize_follows_word_rules_in_let :
    let code := "let x$0  \u0663 \u2003$12 in\t$0 plus $ "
    tokenize (code ++ ";; $0") = .error (.fault (.malformedArgument "$0" code 19)) ∧
    (∃ n, (Fault.malformedArgument "$0" code 19).notice .ansi = .ok n ∧ n.expr = code ∧
      n.start = 19 ∧ n.stop = 21) ∧
    ∃ tokens, tokenize "let x$0  \u0663 \u2003$12 in\tx" = .ok tokens ∧
      tokens.map Token.lexeme = ["let", "x$0", "\u0663", "$12", "in", "x"] := by
  intro code
  have hcut : cutBefore commentMark (code ++ ";; $0") = code := by decide +kernel
  have hcode : IsCode (code ++ ";; $0") code := by
    have h := isCode_cutBefore (code ++ ";; $0")
    rwa [hcut] at h
  obtain ⟨-, hrules⟩ := tokenize_follows_word_rules (code ++ ";; $0")
  obtain ⟨hblamed, hshown⟩ := (hrules code _ hcode (runsOf_wordsAt code)).2
    [⟨0, "let"⟩, ⟨4, "x$0"⟩, ⟨9, "\u0663"⟩, ⟨12, "$12"⟩, ⟨16, "in"⟩] ⟨19, "$0"⟩
    [⟨22, "plus"⟩, ⟨27, "$"⟩] (by decide +kernel) (by decide +kernel) (by decide +kernel)
    (by decide +kernel)
  obtain ⟨n, hn, hexpr, hstart, hstop, -⟩ := hshown .ansi
  refine ⟨hblamed, ⟨n, hn, hexpr, hstart, hstop⟩, ?_⟩
  obtain ⟨-, hrules⟩ := tokenize_follows_word_rules "let x$0  \u0663 \u2003$12 in\tx"
  obtain ⟨tokens, htokens, hlexemes, -⟩ :=
    (hrules _ _ (isCode_cutBefore _) (runsOf_wordsAt _)).1 (by decide +kernel)
  refine ⟨tokens, htokens, hlexemes.trans ?_⟩
  decide +kernel

end CurryCalc
