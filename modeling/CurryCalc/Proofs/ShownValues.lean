import CurryCalc.Proofs.Mishaps
import CurryCalc.Proofs.NumberTexts

/-! Printed values. A truth value or a finite number is printed as one word, and typing this word in
gives an equal value whatever names are bound; a number without fraction is printed with all its
digits. -/
namespace CurryCalc

namespace Binary64

theorem same_of_quanta? {x y : Binary64} {q : Int} (hx : x.quanta? = some q)
    (hy : y.quanta? = some q) :
    x.same y = true := by
  cases x with
  | nan => cases hx
  | infinite negative => cases hx
  | finite negative rank =>
    cases y with
    | nan => cases hy
    | infinite negative => cases hy
    | finite negative rank => simp [same, hx, hy]

theorem exists_quanta? {x : Binary64} (h : x.isFinite = true) : ∃ q, x.quanta? = some q := by
  cases x with
  | finite negative rank => exact ⟨_, rfl⟩
  | infinite negative => cases h
  | nan => cases h

section Integers

variable {negative : Bool} {n : Int} {q u : Nat}

theorem eq_natAbs_mul (h : withSign negative q = n * u) : q = n.natAbs * u := by
  have hnatAbs := congrArg Int.natAbs h
  rw [Int.natAbs_mul, Int.natAbs_natCast] at hnatAbs
  rw [← hnatAbs, withSign]
  cases negative <;> simp

theorem withSign_natAbs_mul (n : Int) (u : Nat) : withSign (n < 0) (n.natAbs * u) = n * u := by
  unfold withSign
  by_cases hn : n < 0
  · rw [if_pos (decide_eq_true hn), Int.natCast_mul, Int.ofNat_natAbs_of_nonpos hn.le, Int.neg_mul,
      Int.neg_neg]
  · rw [if_neg (by simpa using hn), Int.natCast_mul, Int.natAbs_of_nonneg (Int.not_lt.1 hn)]

theorem div_of_withSign (h : withSign negative q = n * u) (hu : 0 < u) :
    q % u = 0 ∧ withSign negative (q / u) = n := by
  have hwhole : q % u = 0 := by rw [eq_natAbs_mul h, Nat.mul_mod_left]
  refine ⟨hwhole, ?_⟩
  have hne : (u : Int) ≠ 0 := by exact_mod_cast hu.ne'
  apply Int.eq_of_mul_eq_mul_right hne
  rw [withSign_div_mul negative hwhole, h]

end Integers

theorem toInt?_of_isInt {x : Binary64} {n : Int} (h : x.isInt n = true) : x.toInt? = some n := by
  have hquanta : x.quanta? = some (n * quantaPerUnit) := eq_of_beq h
  cases x with
  | infinite negative => cases hquanta
  | nan => cases hquanta
  | finite negative rank =>
    obtain ⟨hwhole, hint⟩ := div_of_withSign (Option.some.inj hquanta) quantaPerUnit_pos
    rw [toInt?, if_pos hwhole, hint]

/-- The digits of an integer that is a number are read as a number with the same quanta. -/
theorem quanta?_ofDecimal {x : Binary64} {n : Int} (h : x.toInt? = some n) :
    (ofDecimal (n < 0) n.natAbs 0).quanta? = some (n * quantaPerUnit) := by
  have hquanta := quanta?_of_toInt? h
  cases x with
  | infinite negative => cases h
  | nan => cases h
  | finite negative rank =>
    have habs := eq_natAbs_mul (Option.some.inj hquanta)
    rw [ofDecimal_whole _ habs.symm, ofRank, dif_pos rank.isLt, quanta?, habs, withSign_natAbs_mul]

end Binary64

section Words

/-- The values that can be typed in as they are printed: truth values and finite numbers. -/
def Value.IsWritable : Value → Prop
  | .bool _ => True
  | .float x => x.isFinite = true
  | _ => False

theorem showValue_of_toInt? {x : Binary64} {n : Int} (h : x.toInt? = some n) :
    showValue (.float x) = intText n := by
  rw [showValue, h]

theorem showValue_of_fraction {x : Binary64} (h : x.toInt? = none) :
    showValue (.float x) = x.toText := by
  rw [showValue, h]

/-- The number that a finite number is printed as is equal to it. -/
theorem readNumber?_showValue {x : Binary64} (h : x.isFinite = true) :
    ∃ y, readNumber? (showValue (.float x)) = some y ∧ y.same x = true := by
  cases hint : x.toInt? with
  | some n =>
    rw [showValue_of_toInt? hint, readNumber?_intText]
    exact ⟨_, rfl, Binary64.same_of_quanta? (Binary64.quanta?_ofDecimal hint)
      (Binary64.quanta?_of_toInt? hint)⟩
  | none =>
    obtain ⟨q, hq⟩ := Binary64.exists_quanta? h
    rw [showValue_of_fraction hint, Binary64.readNumber?_toText h]
    exact ⟨x, rfl, Binary64.same_of_quanta? hq hq⟩

theorem parseValue_showValue {v : Value} (h : v.IsWritable) (names : Namespace) :
    IsValueWord (showValue v) ∧ ∃ w, parseValue (showValue v) names = .ok w ∧
    w.equals v = true := by
  cases v with
  | bool b =>
    cases b with
    | true => exact ⟨.inr (.inl rfl), .bool true, rfl, rfl⟩
    | false => exact ⟨.inr (.inr rfl), .bool false, rfl, rfl⟩
  | float x =>
    obtain ⟨y, hread, hsame⟩ := readNumber?_showValue h
    have hnumber : isNumber (showValue (.float x)) = true := (toNumber_of_readNumber? hread).1
    refine ⟨.inl hnumber, .float y, ?_, hsame⟩
    rw [parseValue_eq, hread]
  | _ => exact h.elim

end Words

section Expansions

/-- The decimal expansion of an integer: a minus sign if it is negative, and its digits without a
zero in front. -/
def IsExpansion (n : Int) (w : String) : Prop :=
  ∃ digits : List Char, w.toList = (if n < 0 then ['-'] else []) ++ digits ∧ digits ≠ [] ∧
    (∀ c ∈ digits, isAsciiDigit c) ∧ indexValue digits = n.natAbs ∧
      (digits.head? = some '0' → digits = ['0'])

theorem isAsciiDigit_of_isDigit {c : Char} (h : c.isDigit = true) : isAsciiDigit c = true := by
  simpa [isAsciiDigit, Char.isDigit, Char.le_def] using h

theorem isExpansion_intText (n : Int) : IsExpansion n (intText n) := by
  refine ⟨Nat.toDigits 10 n.natAbs, ?_, Nat.toDigits_ne_nil, ?_, ?_, ?_⟩
  · rw [intText, String.toList_ofList, signText]
    simp
  · exact fun c hc => isAsciiDigit_of_isDigit (isDigit_toDigits hc)
  · rw [indexValue, List.map_reverse, ← ofDigits_eq, ← values_eq_map fun c => isDigit_toDigits,
      ofDigits_toDigits]
  · intro hzero
    rcases Nat.eq_zero_or_pos n.natAbs with hn | hn
    · rw [hn, Nat.toDigits_zero]
    · exact (head?_toDigits hn hzero).elim

end Expansions

/-- Printed values can be typed in again: a truth value or a finite number is printed as one word,
which stands for an equal value whatever names are bound. An integer is printed as its decimal
expansion. -/
theorem shown_values_read_back [Machine] :
    (∀ (v : Value) (names : Namespace), v.IsWritable →
      shownValue v = .ok (showValue v) ∧ words (showValue v) = [showValue v] ∧
      ∃ w, parseValue (showValue v) names = .ok w ∧ w.equals v = true) ∧
    ∀ (x : Binary64) (n : Int), x.isInt n = true → IsExpansion n (showValue (.float x)) := by
  constructor
  · intro v names h
    obtain ⟨hword, hvalue⟩ := parseValue_showValue h names
    have hshown : shownValue v = .ok (showValue v) := by
      cases v with
      | bool b => rfl
      | float x => rfl
      | _ => exact h.elim
    exact ⟨hshown, hword.isWord.words_eq, hvalue⟩
  · intro x n h
    rw [showValue_of_toInt? (Binary64.toInt?_of_isInt h)]
    exact isExpansion_intText n

section StandardMachine

attribute [local instance] Machine.standard

/-- The negative zero where its text is also a bound name, and the number nearest to `10 ^ 23`. -/
theorem shown_values_read_back_large :
    (Value.float (.zero true)).IsWritable ∧
      (words (showValue (.float (.zero true))) = [showValue (.float (.zero true))] ∧
        ∃ w, parseValue (showValue (.float (.zero true)))
          (Bindings.empty.insert "0" (.value (.bool true))) = .ok w ∧
            w.equals (.float (.zero true)) = true) ∧
      (Binary64.ofInt 100000000000000000000000).isInt 99999999999999991611392 = true ∧
      IsExpansion 99999999999999991611392
        (showValue (.float (Binary64.ofInt 100000000000000000000000))) := by
  have hzero : (Value.float (.zero true)).IsWritable := rfl
  have hlarge : (Binary64.ofInt 100000000000000000000000).isInt 99999999999999991611392 = true := by
    decide +kernel
  obtain ⟨hread, hexpansion⟩ := shown_values_read_back
  exact ⟨hzero, (hread _ _ hzero).2, hlarge, hexpansion _ _ hlarge⟩

end StandardMachine

end CurryCalc
