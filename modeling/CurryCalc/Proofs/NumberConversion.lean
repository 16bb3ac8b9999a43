import CurryCalc.Proofs.NumberGrammar
import CurryCalc.Proofs.Trimming
import CurryCalc.Statement

/-! Number literals and the conversion of texts to numbers. The two are read by different rules, but
every literal can be converted, and to the number that it stands for; so what is recognised as a
number is never refused when it is converted. -/
namespace CurryCalc

def isNumberChar (c : Char) : Bool :=
  (digitValue? c).isSome || c = '+' || c = '-' || c = '.' || c = 'e' || c = 'E'

section NumberChars

variable {cs : List Char}

/-- In this lemma and those after it, what is left to read is of number characters, and then so is
what was read. -/
theorem digitRun_chars (h : ∀ c ∈ (digitRun cs).2, isNumberChar c) : ∀ c ∈ cs, isNumberChar c := by
  induction cs with
  | nil => exact h
  | cons c cs ih =>
    unfold digitRun at h
    split at h
    next d hd =>
      rw [List.forall_mem_cons]
      exact ⟨by simp [isNumberChar, hd], ih h⟩
    · exact h

theorem readSign_chars (h : ∀ c ∈ (readSign cs).2, isNumberChar c) : ∀ c ∈ cs, isNumberChar c := by
  unfold readSign at h
  split at h
  · exact List.forall_mem_cons.2 ⟨by decide, h⟩
  · exact List.forall_mem_cons.2 ⟨by decide, h⟩
  · exact h

namespace NumberLiteral

theorem readMantissa?_chars {whole fraction : List Nat} {rest : List Char}
    (h : readMantissa? cs = some (whole, fraction, rest)) (hrest : ∀ c ∈ rest, isNumberChar c) :
    ∀ c ∈ cs, isNumberChar c := by
  have hpoint {more : List Char} (hmore : ∀ c ∈ (digitRun more).2, isNumberChar c) :
      ∀ c ∈ '.' :: more, isNumberChar c :=
    List.forall_mem_cons.2 ⟨by decide, digitRun_chars hmore⟩
  apply digitRun_chars
  unfold readMantissa? at h
  split at h
  next more hrun =>
    rw [hrun]
    split at h
    · cases h
    next hmore =>
      cases h
      exact hpoint (by rwa [hmore])
  · cases h
  next more _ hrun =>
    rw [hrun]
    obtain ⟨-, hpair⟩ := Prod.mk.inj (Option.some.inj h)
    exact hpoint (by rwa [hpair])
  next hrun =>
    rw [hrun]
    cases h
    exact hrest

theorem readExponent?_chars {exponent : Int} (h : readExponent? cs = some exponent) :
    ∀ c ∈ cs, isNumberChar c := by
  cases cs with
  | nil => simp
  | cons c cs =>
    rw [readExponent?] at h
    split at h
    next hc =>
      have hmark : isNumberChar c := by
        rcases Bool.or_eq_true_iff.1 hc with hc | hc
        · simp [isNumberChar, of_decide_eq_true hc]
        · simp [isNumberChar, of_decide_eq_true hc]
      refine List.forall_mem_cons.2 ⟨hmark, readSign_chars (digitRun_chars ?_)⟩
      split at h
      next hsign =>
        rw [hsign]
        split at h
        · cases h
        next hrun =>
          rw [hrun]
          simp
        · cases h
    · cases h

theorem read?_chars {literal : NumberLiteral} (h : read? cs = some literal) :
    ∀ c ∈ cs, isNumberChar c := by
  apply readSign_chars
  unfold read? at h
  split at h
  next hsign =>
    rw [hsign]
    split at h
    · cases h
    next hmantissa =>
      split at h
      · cases h
      next hexponent => exact readMantissa?_chars hmantissa (readExponent?_chars hexponent)

end NumberLiteral

/-- Neither a digit of any script nor another number character is blank or a colon. -/
theorem isNumberChar_code {c : Char} (h : isNumberChar c = true) : isBlank c = false ∧ c ≠ ':' := by
  have hdigits : ∀ z ∈ zeroDigits, ∀ k < 10, isBlank (Char.ofNat (z + k)) = false ∧
      Char.ofNat (z + k) ≠ ':' := by decide +kernel
  unfold isNumberChar at h
  simp only [Bool.or_eq_true, decide_eq_true_eq] at h
  rcases h with ((((hdigit | rfl) | rfl) | rfl) | rfl) | rfl
  · obtain ⟨z, hz, hlow, hhigh⟩ : ∃ z ∈ zeroDigits, z ≤ c.toNat ∧ c.toNat < z + 10 := by
      simpa [digitValue?] using hdigit
    have hcode := hdigits z hz (c.toNat - z) (by omega)
    rwa [Nat.add_sub_cancel' hlow, Char.ofNat_toNat] at hcode
  all_goals decide

end NumberChars

namespace Conversion

open NumberLiteral (IsDigits IsSign IsMantissa IsExponent)

/-- A text that goes on neither with a digit nor with a mark between digits. -/
def StopsDigits (rest : List Char) : Prop :=
  ∀ c more, rest = c :: more → digitValue? c = none ∧ c ≠ '_'

section Digits

variable {cs ds rest : List Char}

theorem digitsOnto_stops (h : StopsDigits rest) (n count : Nat) :
    digitsOnto n count rest = (n, count, rest) := by
  cases rest with
  | nil => rfl
  | cons c more =>
    obtain ⟨hdigit, hmark⟩ := h c more rfl
    simp [digitsOnto, hdigit, hmark]

theorem digitsOnto_append (hds : IsDigits ds) (hrest : StopsDigits rest) (n count : Nat) :
    digitsOnto n count (ds ++ rest) =
      ((ds.filterMap digitValue?).foldl (fun n d => 10 * n + d) n, count + ds.length, rest) := by
  induction ds generalizing n count with
  | nil => exact digitsOnto_stops hrest n count
  | cons c ds ih =>
    obtain ⟨hc, hds⟩ := List.forall_mem_cons.1 hds
    obtain ⟨d, hd⟩ := Option.isSome_iff_exists.1 hc
    rw [List.cons_append, digitsOnto, hd]
    dsimp only
    rw [ih hds, List.filterMap_cons_some hd, List.foldl_cons, List.length_cons, Nat.add_assoc,
      Nat.add_comm 1]

theorem stopsDigits_nil : StopsDigits [] := by simp [StopsDigits]

theorem stopsDigits_point (more : List Char) : StopsDigits ('.' :: more) := by
  rintro c more ⟨⟩
  exact ⟨rfl, by decide⟩

theorem stopsDigits_exponent (h : IsExponent rest) : StopsDigits rest := by
  rintro c more rfl
  cases h with
  | marked hmark =>
    rcases hmark with rfl | rfl
    · exact ⟨rfl, by decide⟩
    · exact ⟨rfl, by decide⟩

theorem length_values (hds : IsDigits ds) : (ds.filterMap digitValue?).length = ds.length := by
  induction ds with
  | nil => rfl
  | cons c ds ih =>
    obtain ⟨hc, hds⟩ := List.forall_mem_cons.1 hds
    obtain ⟨d, hd⟩ := Option.isSome_iff_exists.1 hc
    rw [List.filterMap_cons_some hd, List.length_cons, List.length_cons, ih hds]

end Digits

section Parts

variable {cs rest : List Char} {whole fraction : List Nat}

/-- A mantissa is read alike as part of a literal and for conversion. -/
theorem mantissa?_of_readMantissa?
    (h : NumberLiteral.readMantissa? cs = some (whole, fraction, rest)) (hrest : IsExponent rest) :
    mantissa? cs = some (ofDigits (whole ++ fraction), fraction.length, rest) := by
  obtain ⟨mantissa, hmantissa, rfl⟩ := NumberLiteral.exists_mantissa h
  have hstops := stopsDigits_exponent hrest
  have hends : ∀ c more, rest = c :: more → digitValue? c = none := fun c more heq =>
    (hrest.stops c more heq).1
  cases hmantissa with
  | whole hne hds =>
    rw [NumberLiteral.readMantissa?_whole hne hds hrest.stops] at h
    obtain ⟨rfl, rfl⟩ : _ = whole ∧ [] = fraction := by simpa using h
    rw [mantissa?, digitsOnto_append hds hstops]
    cases rest with
    | nil => simp [hne, ofDigits]
    | cons c more => simp [hne, ofDigits, (hrest.stops c more rfl).2]
  | @pointed ds fs hne hds hfs =>
    rw [List.append_assoc, List.cons_append] at h ⊢
    rw [NumberLiteral.readMantissa?_pointed hne hds hfs hends] at h
    cases h
    have hcount : ds.length + fs.length ≠ 0 := by
      have hpos := List.length_pos_iff.2 hne
      omega
    simp only [mantissa?, digitsOnto_append hds (stopsDigits_point _), digitsOnto_append hfs hstops,
      Nat.zero_add, if_neg hcount, ofDigits, List.foldl_append, length_values hfs]
  | @fraction fs hne hfs =>
    rw [List.cons_append] at h ⊢
    rw [NumberLiteral.readMantissa?_fraction hne hfs hends] at h
    cases h
    have hcount : fs.length ≠ 0 := by simpa using hne
    simp only [mantissa?, digitsOnto_stops (stopsDigits_point _), digitsOnto_append hfs hstops,
      Nat.zero_add, if_neg hcount, ofDigits, List.nil_append, length_values hfs]

theorem power?_of_readExponent? {exponent : Int}
    (h : NumberLiteral.readExponent? cs = some exponent) :
    power? cs = some exponent := by
  have hexponent : IsExponent cs := NumberLiteral.readExponent?_isSome_iff.1 (by rw [h]; rfl)
  cases hexponent with
  | absent => exact h
  | @marked mark sign ds hmark hsign hne hds =>
    have hhead : ∀ c ∈ ds.head?, c ≠ '-' ∧ c ≠ '+' := fun c hc =>
      NumberLiteral.ne_sign (.inl (hds c (List.mem_of_head? hc)))
    have hread := NumberLiteral.readSign_append hsign hhead
    have hmark : (mark = 'e' || mark = 'E') = true := by simpa using hmark
    rw [NumberLiteral.readExponent?, if_pos hmark] at h
    rw [power?, if_pos hmark]
    generalize readSign (sign ++ ds) = read at h hread ⊢
    obtain ⟨negative, digits⟩ := read
    obtain rfl : digits = ds := hread
    obtain ⟨d, values, hvalues⟩ := NumberLiteral.exists_values hne hds
    have hrun := NumberLiteral.digitRun_digits hds
    have honto := digitsOnto_append hds stopsDigits_nil 0 0
    rw [List.append_nil] at honto
    dsimp only at h ⊢
    rw [hrun, hvalues] at h
    rw [honto, hvalues]
    simpa [hne, ofDigits] using h

end Parts

end Conversion

/-- A literal is converted to the number that it stands for. -/
theorem convert?_of_read? {w : String} {literal : NumberLiteral}
    (h : NumberLiteral.read? w.toList = some literal) : convert? w = some literal.toBinary64 := by
  have hchars : ∀ c ∈ w.toList, isBlank c = false := fun c hc =>
    (isNumberChar_code (NumberLiteral.read?_chars h c hc)).1
  have htrim : trim w = w := trim_of_isTrimmed
    ⟨fun c hc => hchars c (List.mem_of_head? hc), fun c hc => hchars c (List.mem_of_getLast? hc)⟩
  rw [convert?, htrim]
  unfold NumberLiteral.read? at h
  generalize readSign w.toList = read at h ⊢
  obtain ⟨negative, cs⟩ := read
  dsimp only at h ⊢
  split at h
  · cases h
  next whole fraction rest hmantissa =>
    split at h
    · cases h
    next exponent hexponent =>
      cases h
      have hrest : NumberLiteral.IsExponent rest :=
        NumberLiteral.readExponent?_isSome_iff.1 (by rw [hexponent]; rfl)
      rw [Conversion.decimal?, Conversion.mantissa?_of_readMantissa? hmantissa hrest]
      dsimp only
      rw [Conversion.power?_of_readExponent? hexponent, Option.map_some, NumberLiteral.toBinary64]
      rfl

theorem readNumber?_eq_none_iff {w : String} : readNumber? w = none ↔ isNumber w = false := by
  rw [readNumber?, Option.map_eq_none_iff, isNumber, Option.isSome_eq_false_iff,
    Option.isNone_iff_eq_none]

theorem toNumber_of_readNumber? {w : String} {x : Binary64} (h : readNumber? w = some x) :
    isNumber w = true ∧ toNumber w = .ok x := by
  obtain ⟨literal, hread, hliteral⟩ := Option.map_eq_some_iff.1 h
  have hconvert : convert? w = some x := (convert?_of_read? hread).trans (congrArg some hliteral)
  constructor
  · rw [isNumber, hread]
    rfl
  · unfold toNumber
    rewrite [hconvert]
    rfl

theorem classify_eq (word : String) (source : Value) (offset : Int) :
    classify word source offset =
      match readNumber? word with
      | some x => .ok ⟨.number (.float x), word⟩
      | none =>
        match Keyword.ofWord? word with
        | some k => .ok ⟨.keyword k, word⟩
        | none =>
          match word.toList with
          | '$' :: digits =>
            match readIndex? digits with
            | .error e => .error e
            | .ok none =>
              .error (.about .unlimited (if source = .nothing then word else source)
                (.malformedArgument word source offset))
            | .ok (some index) => .ok ⟨.placeholder (.int index), word⟩
          | _ => .ok ⟨.name (.text word), word⟩ := by
  unfold classify
  cases hread : readNumber? word with
  | some x =>
    obtain ⟨hnumber, hconvert⟩ := toNumber_of_readNumber? hread
    rewrite [if_pos hnumber, hconvert]
    rfl
  | none =>
    rewrite [if_neg (by simp [readNumber?_eq_none_iff.1 hread])]
    rfl

theorem parseValue_eq (word : String) (names : Namespace) :
    parseValue word names =
      match readNumber? word with
      | some x => .ok (.float x)
      | none =>
        match boolean? word with
        | some b => .ok (.bool b)
        | none =>
          match names.find? word with
          | some (.value v) => .ok v
          | _ => .error (.fault (.notAValue word)) := by
  unfold parseValue
  cases hread : readNumber? word with
  | some x =>
    obtain ⟨hnumber, hconvert⟩ := toNumber_of_readNumber? hread
    rewrite [if_pos hnumber, hconvert]
    rfl
  | none =>
    rewrite [if_neg (by simp [readNumber?_eq_none_iff.1 hread])]
    rfl

/-- What a word is read as, if it is read. -/
theorem classify_cases {word : String} {source : Value} {offset : Int} {t : Token}
    (h : classify word source offset = .ok t) :
    (∃ x, readNumber? word = some x ∧ t = ⟨.number (.float x), word⟩) ∨
    (∃ k, Keyword.ofWord? word = some k ∧ t = ⟨.keyword k, word⟩) ∨
    (∃ digits index, readIndex? digits = .ok (some index) ∧ t = ⟨.placeholder (.int index), word⟩) ∨
    t = ⟨.name (.text word), word⟩ := by
  rw [classify_eq] at h
  split at h
  next x hx =>
    cases h
    exact .inl ⟨x, hx, rfl⟩
  split at h
  next k hk =>
    cases h
    exact .inr (.inl ⟨k, hk, rfl⟩)
  split at h
  next digits _ =>
    split at h
    · cases h
    · cases h
    next index hindex =>
      cases h
      exact .inr (.inr (.inl ⟨digits, index, hindex, rfl⟩))
  · cases h
    exact .inr (.inr (.inr rfl))

theorem classify_ne_number {w lexeme : String} (h : isNumber w = false) (source : Value)
    (offset : Int) (v : Value) : classify w source offset ≠ .ok ⟨.number v, lexeme⟩ := by
  intro hnumber
  rcases classify_cases hnumber with ⟨x, hx, -⟩ | ⟨k, -, ht⟩ | ⟨digits, index, -, ht⟩ | ht
  · rw [readNumber?_eq_none_iff.2 h] at hx
    cases hx
  · cases ht
  · cases ht
  · cases ht

/-- The numbers are the literals of the grammar. Each of them can be converted, so that reading it
as a token or as an argument does not fail; any other word is read as something else, also one that
could be converted. -/
theorem recognised_numbers_convert :
    (∀ w, isNumber w = true ↔ NumberLiteral.IsNumeral w.toList) ∧
    (∀ w, isNumber w = true → ∃ x, convert? w = some x ∧
      (∀ source offset, classify w source offset = .ok ⟨.number (.float x), w⟩) ∧
        ∀ names, parseValue w names = .ok (.float x)) ∧
    (∀ w, isNumber w = false → ∀ source offset v lexeme,
      classify w source offset ≠ .ok ⟨.number v, lexeme⟩) ∧
    ∀ w ∈ ["inf", "nan", "1x", ".", "1e", ""], isNumber w = false := by
  refine ⟨fun w => isNumber_iff, ?_, ?_, by decide⟩
  · intro w hw
    obtain ⟨literal, hread⟩ := Option.isSome_iff_exists.1 hw
    have hnumber : readNumber? w = some literal.toBinary64 := by
      rw [readNumber?, hread, Option.map_some]
    refine ⟨_, convert?_of_read? hread, fun source offset => ?_, fun names => ?_⟩
    · rw [classify_eq, hnumber]
    · rw [parseValue_eq, hnumber]
  · intro w hw source offset v lexeme
    exact classify_ne_number hw source offset v

/-- A literal with digits of another script, a point without digits after it and an exponent. -/
theorem recognised_numbers_convert_arabic : isNumber "-٣.E+02" = true ∧
    (∃ x, convert? "-٣.E+02" = some x ∧
      classify "-٣.E+02" .nothing 0 = .ok ⟨.number (.float x), "-٣.E+02"⟩ ∧
        parseValue "-٣.E+02" Bindings.empty = .ok (.float x)) ∧
    convert? "-inf" = some (.infinite true) ∧ isNumber "-inf" = false ∧
      ∀ v, classify "-inf" .nothing 0 ≠ .ok ⟨.number v, "-inf"⟩ := by
  obtain ⟨-, hconverts, hother, -⟩ := recognised_numbers_convert
  have hnumber : isNumber "-٣.E+02" = true := by decide +kernel
  have hword : isNumber "-inf" = false := by decide +kernel
  obtain ⟨x, hx, hclassify, hvalue⟩ := hconverts _ hnumber
  refine ⟨hnumber, ⟨x, hx, hclassify _ _, hvalue _⟩, by decide +kernel, hword, fun v => ?_⟩
  exact hother _ hword .nothing 0 v _

end CurryCalc
