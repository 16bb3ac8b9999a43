import CurryCalc.Proofs.ExactRounding
import CurryCalc.Proofs.ValueWords
import CurryCalc.Proofs.WordRules

/-! Texts of numbers. The text of a number is a literal of it: of an integer all digits are written,
and of any other number digits that read back as it does. -/
namespace CurryCalc

open NumberLiteral (IsDigits IsExponent)

section Digits

theorem digitValue?_of_isDigit {c : Char} (h : c.isDigit = true) :
    digitValue? c = some (c.toNat - '0'.toNat) := by
  obtain ⟨hlow, hhigh⟩ : 48 ≤ c.toNat ∧ c.toNat ≤ 57 := by
    simpa [Char.isDigit, UInt32.le_iff_toNat_le] using h
  have hfind : zeroDigits.find? (fun z => z ≤ c.toNat && c.toNat < z + 10) = some '0'.toNat := by
    apply List.find?_cons_of_pos
    simp only [Bool.and_eq_true, decide_eq_true_eq]
    omega
  rw [digitValue?, hfind, Option.map_some]

theorem isDigit_toDigits {n : Nat} {c : Char} (h : c ∈ Nat.toDigits 10 n) : c.isDigit = true :=
  Nat.isDigit_of_mem_toDigits (by decide) (by decide) h

theorem isDigits_toDigits (n : Nat) : IsDigits (Nat.toDigits 10 n) := by
  intro c hc
  rw [digitValue?_of_isDigit (isDigit_toDigits hc)]
  rfl

theorem values_eq_map {ds : List Char} (h : ∀ c ∈ ds, c.isDigit = true) :
    ds.filterMap digitValue? = ds.map fun c => c.toNat - '0'.toNat := by
  rw [← List.filterMap_eq_map]
  exact List.filterMap_congr fun c hc => digitValue?_of_isDigit (h c hc)

theorem ofDigits_toDigits (n : Nat) : ofDigits ((Nat.toDigits 10 n).filterMap digitValue?) = n := by
  rw [values_eq_map fun c => isDigit_toDigits, ofDigits, List.foldl_map]
  exact Nat.ofDigitChars_ten_toDigits

/-- No zero stands in front, except for zero itself. -/
theorem head?_toDigits {n : Nat} (hn : 0 < n) : (Nat.toDigits 10 n).head? ≠ some '0' := by
  induction n using Nat.strongRecOn with
  | ind n ih =>
    by_cases hlt : n < 10
    · have hcode : n.digitChar.toNat = 48 + n := Nat.toNat_digitChar_of_lt_ten hlt
      rw [Nat.toDigits_of_lt_base hlt]
      intro hzero
      obtain hzero : n.digitChar = '0' := Option.some.inj hzero
      rw [hzero] at hcode
      have hcode : 48 = 48 + n := hcode
      omega
    · have hle : 10 ≤ n := by omega
      rw [Nat.toDigits_of_base_le (by decide) hle,
        List.head?_append_of_ne_nil _ Nat.toDigits_ne_nil]
      exact ih (n / 10) (by omega) (by omega)

end Digits

namespace NumberLiteral

variable {text : List Char}

def Unsigned (text : List Char) : Prop := ∀ c ∈ text.head?, c ≠ '-' ∧ c ≠ '+'

theorem readSign_signText (h : Unsigned text) (negative : Bool) :
    readSign (signText negative ++ text) = (negative, text) := by
  cases negative with
  | true => rfl
  | false =>
    cases text with
    | nil => rfl
    | cons c more =>
      obtain ⟨hminus, hplus⟩ := h c rfl
      simp [signText, readSign, hminus, hplus]

/-- A sign in front of a literal only changes its sign. -/
theorem read?_signText (h : Unsigned text) (negative : Bool) :
    read? (signText negative ++ text) = (read? text).map fun l => { l with negative } := by
  have hplain := readSign_signText h false
  rw [signText, if_neg Bool.false_ne_true, List.nil_append] at hplain
  unfold read?
  rw [readSign_signText h negative, hplain]
  dsimp only
  cases readMantissa? text with
  | none => rfl
  | some parts =>
    obtain ⟨whole, fraction, rest⟩ := parts
    dsimp only
    cases readExponent? rest <;> rfl

theorem unsigned_of_isDigit {c : Char} (h : c.isDigit = true) (more : List Char) :
    Unsigned (c :: more) := by
  rintro d ⟨⟩
  apply ne_sign
  rw [digitValue?_of_isDigit h]
  exact .inl rfl

theorem unsigned_toDigits (n : Nat) (rest : List Char) : Unsigned (Nat.toDigits 10 n ++ rest) :=
  (IsMantissa.whole Nat.toDigits_ne_nil (isDigits_toDigits n)).head rest

/-- Digits and what follows them are read as a whole number with that exponent. -/
theorem read?_toDigits (n : Nat) {rest : List Char} {e : Int} (h : readExponent? rest = some e) :
    read? (Nat.toDigits 10 n ++ rest) =
      some ⟨false, (Nat.toDigits 10 n).filterMap digitValue?, [], e⟩ := by
  have hrest : IsExponent rest := readExponent?_isSome_iff.1 (by rw [h]; rfl)
  have hmantissa := readMantissa?_whole Nat.toDigits_ne_nil (isDigits_toDigits n) hrest.stops
  have hsign := readSign_signText (unsigned_toDigits n rest) false
  rw [signText, if_neg Bool.false_ne_true, List.nil_append] at hsign
  unfold read?
  rw [hsign]
  dsimp only
  rw [hmantissa]
  dsimp only
  rw [h]

end NumberLiteral

section Integers

theorem read?_intText (n : Int) : NumberLiteral.read? (intText n).toList =
    some ⟨n < 0, (Nat.toDigits 10 n.natAbs).filterMap digitValue?, [], 0⟩ := by
  have hend : NumberLiteral.readExponent? [] = some 0 := rfl
  have hread := NumberLiteral.read?_toDigits n.natAbs hend
  have hunsigned := NumberLiteral.unsigned_toDigits n.natAbs []
  rw [List.append_nil] at hread hunsigned
  rw [intText, String.toList_ofList, NumberLiteral.read?_signText hunsigned, hread]
  rfl

theorem intText_injective {m n : Int} (h : intText m = intText n) : m = n := by
  have hread := read?_intText m
  rw [h, read?_intText n] at hread
  obtain ⟨hsign, hdigits⟩ : (n < 0 ↔ m < 0) ∧ _ := by simpa using hread
  have habs : n.natAbs = m.natAbs := by
    rw [← ofDigits_toDigits n.natAbs, ← ofDigits_toDigits m.natAbs, hdigits]
  omega

theorem readNumber?_intText (n : Int) :
    readNumber? (intText n) = some (Binary64.ofDecimal (n < 0) n.natAbs 0) := by
  rw [readNumber?, read?_intText, Option.map_some, NumberLiteral.toBinary64]
  dsimp only
  rw [List.append_nil, ofDigits_toDigits]
  rfl

end Integers

section Magnitudes

theorem exists_dropTrailingZeros (ds : List Char) :
    ∃ c more, dropTrailingZeros ds = c :: more ∧ (c = '0' ∨ c ∈ ds) := by
  unfold dropTrailingZeros
  split
  · exact ⟨'0', [], rfl, .inl rfl⟩
  next kept hkept =>
    cases hcs : (ds.reverse.dropWhile (· == '0')).reverse with
    | nil => exact (hkept hcs).elim
    | cons c more =>
      have hmem : c ∈ (ds.reverse.dropWhile (· == '0')).reverse := by simp [hcs]
      refine ⟨c, more, rfl, .inr ?_⟩
      exact List.mem_reverse.1 ((List.dropWhile_sublist _).subset (List.mem_reverse.1 hmem))

theorem exists_placePoint {c : Char} (hc : c.isDigit = true) (more : List Char) (order : Int) :
    ∃ first rest, placePoint (c :: more) order = first :: rest ∧ first.isDigit = true := by
  unfold placePoint
  split
  · exact ⟨c, _, rfl, hc⟩
  · split
    · exact ⟨'0', _, rfl, rfl⟩
    · exact ⟨c, _, rfl, hc⟩

/-- The text of a decimal starts with a digit. -/
theorem Decimal.exists_text (d : Decimal) : ∃ c more, d.text = c :: more ∧ c.isDigit = true := by
  obtain ⟨c, more, hkept, hc⟩ := exists_dropTrailingZeros (Nat.toDigits 10 d.digits)
  have hdigit : c.isDigit = true := by
    rcases hc with rfl | hc
    · rfl
    · exact isDigit_toDigits hc
  rw [text, hkept]
  exact exists_placePoint hdigit more _

theorem readsAs_exactText (rank : Nat) : readsAs rank (exactText rank) = true := by
  have hexponent : NumberLiteral.readExponent? ['e', '-', '1', '0', '7', '4'] = some (-1074) := rfl
  have hread := NumberLiteral.read?_toDigits (rankQuanta rank * Nat.pow 5 1074) hexponent
  have hvalue : (NumberLiteral.read? (exactText rank)).map NumberLiteral.toBinary64 =
      some (Binary64.ofRank false rank) := by
    rw [exactText, hread, Option.map_some, NumberLiteral.toBinary64, List.append_nil,
      ofDigits_toDigits]
    exact congrArg some (Binary64.ofDecimal_quanta false rank)
  rw [readsAs, hvalue, beq_self_eq_true]

/-- The text of a magnitude starts with a digit, and is a literal of it. -/
theorem readsAs_magnitudeText (rank : Nat) :
    readsAs rank (magnitudeText rank) = true ∧ NumberLiteral.Unsigned (magnitudeText rank) := by
  unfold magnitudeText
  cases hfound : (List.range 17).findSome? fun k => withDigits? rank (k + 1) with
  | none =>
    rw [Option.getD_none]
    refine ⟨readsAs_exactText rank, ?_⟩
    rw [exactText]
    exact NumberLiteral.unsigned_toDigits _ _
  | some text =>
    obtain ⟨k, -, hk⟩ := List.exists_of_findSome?_eq_some hfound
    obtain ⟨d, -, rfl⟩ := List.mem_map.1 (List.mem_of_find?_eq_some hk)
    obtain ⟨c, more, htext, hc⟩ := d.exists_text
    refine ⟨List.find?_some hk, ?_⟩
    rw [Option.getD_some, htext]
    exact NumberLiteral.unsigned_of_isDigit hc more

end Magnitudes

namespace Binary64

theorem ofRank_true (rank : Nat) : ofRank true rank = (ofRank false rank).neg := by
  unfold ofRank
  split <;> rfl

theorem ofDecimal_true (n : Nat) (e : Int) : ofDecimal true n e = (ofDecimal false n e).neg := by
  unfold ofDecimal
  split
  · exact ofRank_true 0
  split
  · rfl
  split
  · exact ofRank_true 0
  split
  · exact ofRank_true _
  · exact ofRank_true _

theorem readNumber?_toText {x : Binary64} (h : x.isFinite = true) :
    readNumber? x.toText = some x := by
  cases x with
  | nan => cases h
  | infinite negative => cases h
  | finite negative rank =>
    obtain ⟨hreads, hunsigned⟩ := readsAs_magnitudeText rank
    have hfinite (negative : Bool) : ofRank negative rank = .finite negative rank := by
      rw [ofRank, dif_pos rank.isLt]
    obtain ⟨literal, hread, hvalue⟩ := Option.map_eq_some_iff.1 (eq_of_beq hreads)
    have hsame := NumberLiteral.read?_signText hunsigned false
    rw [signText, if_neg Bool.false_ne_true, List.nil_append, hread, Option.map_some,
      Option.some_inj] at hsame
    have hpositive : literal.negative = false := congrArg NumberLiteral.negative hsame
    rw [readNumber?, toText, String.toList_ofList, NumberLiteral.read?_signText hunsigned, hread,
      Option.map_some, Option.map_some, Option.some_inj, ← hfinite]
    rw [NumberLiteral.toBinary64, hpositive] at hvalue
    rw [NumberLiteral.toBinary64]
    cases negative with
    | false => exact hvalue
    | true =>
      rw [ofDecimal_true, ofRank_true]
      exact congrArg neg hvalue

end Binary64

end CurryCalc
