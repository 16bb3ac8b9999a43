import CurryCalc.Number.Literal
import CurryCalc.Proofs.TextParts

/-! The grammar of number literals, and that exactly the literals of the grammar are read. Each part
of a literal ends where a character comes that the part cannot have, so that no other split is
possible. -/
namespace CurryCalc

namespace NumberLiteral

/-- Decimal digits of any script. -/
def IsDigits (cs : List Char) : Prop := ∀ c ∈ cs, (digitValue? c).isSome

inductive IsSign : List Char → Prop where
  | absent : IsSign []
  | plus : IsSign ['+']
  | minus : IsSign ['-']

/-- Digits and at most one point; there is a digit before or after it. -/
inductive IsMantissa : List Char → Prop where
  | whole {ds : List Char} : ds ≠ [] → IsDigits ds → IsMantissa ds
  | pointed {ds fs : List Char} : ds ≠ [] → IsDigits ds → IsDigits fs → IsMantissa (ds ++ '.' :: fs)
  | fraction {fs : List Char} : fs ≠ [] → IsDigits fs → IsMantissa ('.' :: fs)

inductive IsExponent : List Char → Prop where
  | absent : IsExponent []
  | marked {mark : Char} {sign ds : List Char} : mark = 'e' ∨ mark = 'E' → IsSign sign → ds ≠ [] →
      IsDigits ds → IsExponent (mark :: (sign ++ ds))

/-- The number literals: a sign, a mantissa and an exponent, and nothing else. -/
def IsNumeral (cs : List Char) : Prop :=
  ∃ sign mantissa exponent, IsSign sign ∧ IsMantissa mantissa ∧ IsExponent exponent ∧
    cs = sign ++ (mantissa ++ exponent)

section Digits

variable {cs ds rest : List Char}

theorem exists_digits (cs : List Char) : ∃ ds rest, cs = ds ++ rest ∧ IsDigits ds ∧
    ∀ c more, rest = c :: more → digitValue? c = none := by
  obtain ⟨ds, rest, hcs, hds, hrest⟩ := exists_span (fun c => (digitValue? c).isSome) cs
  exact ⟨ds, rest, hcs, hds, by simpa using hrest⟩

theorem digitRun_append (hds : IsDigits ds)
    (hrest : ∀ c more, rest = c :: more → digitValue? c = none) :
    digitRun (ds ++ rest) = (ds.filterMap digitValue?, rest) := by
  induction ds with
  | nil =>
    cases rest with
    | nil => rfl
    | cons c more => simp [digitRun, hrest c more rfl]
  | cons c ds ih =>
    obtain ⟨hc, hds⟩ := List.forall_mem_cons.1 hds
    obtain ⟨d, hd⟩ := Option.isSome_iff_exists.1 hc
    simp [digitRun, hd, ih hds]

theorem digitRun_digits (hds : IsDigits ds) : digitRun ds = (ds.filterMap digitValue?, []) := by
  have h : digitRun (ds ++ []) = _ := digitRun_append hds nofun
  rwa [List.append_nil] at h

/-- Digits have values, at least one if there is a digit. -/
theorem exists_values (hne : ds ≠ []) (hds : IsDigits ds) :
    ∃ d values, ds.filterMap digitValue? = d :: values := by
  obtain ⟨c, more, rfl⟩ := List.exists_cons_of_ne_nil hne
  obtain ⟨d, hd⟩ := Option.isSome_iff_exists.1 (hds c List.mem_cons_self)
  exact ⟨d, more.filterMap digitValue?, List.filterMap_cons_some hd⟩

end Digits

section Parts

variable {cs ds rest : List Char}

theorem exists_sign (cs : List Char) : ∃ sign, IsSign sign ∧ cs = sign ++ (readSign cs).2 := by
  unfold readSign
  split
  · exact ⟨['-'], .minus, rfl⟩
  · exact ⟨['+'], .plus, rfl⟩
  · exact ⟨[], .absent, rfl⟩

theorem readSign_append {sign : List Char} (hsign : IsSign sign)
    (hrest : ∀ c ∈ rest.head?, c ≠ '-' ∧ c ≠ '+') : (readSign (sign ++ rest)).2 = rest := by
  cases hsign with
  | plus | minus => rfl
  | absent =>
    cases rest with
    | nil => rfl
    | cons c more =>
      obtain ⟨hminus, hplus⟩ := hrest c rfl
      simp [readSign, hminus, hplus]

theorem ne_sign {c : Char} (h : (digitValue? c).isSome ∨ c = '.') : c ≠ '-' ∧ c ≠ '+' := by
  constructor
  · rintro rfl
    exact absurd h (by decide)
  · rintro rfl
    exact absurd h (by decide)

theorem IsMantissa.head (h : IsMantissa cs) (rest : List Char) :
    ∀ c ∈ (cs ++ rest).head?, c ≠ '-' ∧ c ≠ '+' := by
  intro c hc
  apply ne_sign
  cases h with
  | whole hne hds =>
    obtain ⟨d, more, rfl⟩ := List.exists_cons_of_ne_nil hne
    cases hc
    exact .inl (hds _ List.mem_cons_self)
  | pointed hne hds hfs =>
    obtain ⟨d, more, rfl⟩ := List.exists_cons_of_ne_nil hne
    cases hc
    exact .inl (hds _ List.mem_cons_self)
  | fraction hne hfs =>
    cases hc
    exact .inr rfl

theorem readMantissa?_point {more : List Char} {fraction : List Nat}
    (h : digitRun cs = ([], '.' :: more)) (hmore : digitRun more = (fraction, rest)) :
    readMantissa? cs = if fraction = [] then none else some ([], fraction, rest) := by
  cases fraction with
  | nil => simp [readMantissa?, h, hmore]
  | cons d values => simp [readMantissa?, h, hmore]

theorem readMantissa?_whole (hne : ds ≠ []) (hds : IsDigits ds)
    (hrest : ∀ c more, rest = c :: more → digitValue? c = none ∧ c ≠ '.') :
    readMantissa? (ds ++ rest) = some (ds.filterMap digitValue?, [], rest) := by
  obtain ⟨d, values, hvalues⟩ := exists_values hne hds
  unfold readMantissa?
  rw [digitRun_append hds fun c more h => (hrest c more h).1, hvalues]
  cases rest with
  | nil => rfl
  | cons c more => simp [(hrest c more rfl).2]

theorem digitRun_append_point (hds : IsDigits ds) (more : List Char) :
    digitRun (ds ++ '.' :: more) = (ds.filterMap digitValue?, '.' :: more) := by
  apply digitRun_append hds
  rintro _ _ ⟨⟩
  rfl

theorem readMantissa?_pointed {fs : List Char} (hne : ds ≠ []) (hds : IsDigits ds)
    (hfs : IsDigits fs) (hrest : ∀ c more, rest = c :: more → digitValue? c = none) :
    readMantissa? (ds ++ '.' :: (fs ++ rest)) =
      some (ds.filterMap digitValue?, fs.filterMap digitValue?, rest) := by
  obtain ⟨d, values, hvalues⟩ := exists_values hne hds
  simp [readMantissa?, digitRun_append_point hds, hvalues, digitRun_append hfs hrest]

theorem readMantissa?_fraction {fs : List Char} (hne : fs ≠ []) (hfs : IsDigits fs)
    (hrest : ∀ c more, rest = c :: more → digitValue? c = none) :
    readMantissa? ('.' :: (fs ++ rest)) = some ([], fs.filterMap digitValue?, rest) := by
  obtain ⟨d, values, hvalues⟩ := exists_values hne hfs
  have hnone : digitRun ('.' :: (fs ++ rest)) = ([], '.' :: (fs ++ rest)) := rfl
  rw [readMantissa?_point hnone (digitRun_append hfs hrest), hvalues]
  rfl

theorem readMantissa?_append (h : IsMantissa cs)
    (hrest : ∀ c more, rest = c :: more → digitValue? c = none ∧ c ≠ '.') :
    ∃ whole fraction, readMantissa? (cs ++ rest) = some (whole, fraction, rest) := by
  have hstops : ∀ c more, rest = c :: more → digitValue? c = none :=
    fun c more h => (hrest c more h).1
  cases h with
  | whole hne hds => exact ⟨_, _, readMantissa?_whole hne hds hrest⟩
  | pointed hne hds hfs =>
    rw [List.append_assoc, List.cons_append]
    exact ⟨_, _, readMantissa?_pointed hne hds hfs hstops⟩
  | fraction hne hfs => exact ⟨_, _, readMantissa?_fraction hne hfs hstops⟩

theorem exists_mantissa {whole fraction : List Nat}
    (h : readMantissa? cs = some (whole, fraction, rest)) :
    ∃ mantissa, IsMantissa mantissa ∧ cs = mantissa ++ rest := by
  obtain ⟨ds, after, rfl, hds, hafter⟩ := exists_digits cs
  have hrun := digitRun_append hds hafter
  by_cases hne : ds = []
  · subst hne
    cases after with
    | nil => cases h
    | cons c more =>
      by_cases hc : c = '.'
      · subst hc
        obtain ⟨fs, after, rfl, hfs, hafter⟩ := exists_digits more
        rw [readMantissa?_point hrun (digitRun_append hfs hafter)] at h
        by_cases hfs' : fs = []
        · subst hfs'
          cases h
        · obtain ⟨d, values, hvalues⟩ := exists_values hfs' hfs
          rw [hvalues, if_neg (List.cons_ne_nil d values)] at h
          cases h
          exact ⟨'.' :: fs, .fraction hfs' hfs, rfl⟩
      · unfold readMantissa? at h
        rw [hrun] at h
        simp [hc] at h
  · obtain ⟨d, values, hvalues⟩ := exists_values hne hds
    unfold readMantissa? at h
    rw [hrun, hvalues] at h
    cases after with
    | nil =>
      cases h
      exact ⟨ds, .whole hne hds, rfl⟩
    | cons c more =>
      by_cases hc : c = '.'
      · subst hc
        obtain ⟨fs, after, rfl, hfs, hafter⟩ := exists_digits more
        have h : some (d :: values, digitRun (fs ++ after)) = some (whole, fraction, rest) := h
        rw [digitRun_append hfs hafter] at h
        cases h
        exact ⟨ds ++ '.' :: fs, .pointed hne hds hfs, by simp⟩
      · obtain ⟨-, -, rfl⟩ : d :: values = whole ∧ [] = fraction ∧ c :: more = rest := by
          simpa [hc] using h
        exact ⟨ds, .whole hne hds, rfl⟩

theorem readExponent?_isSome_iff : (readExponent? cs).isSome ↔ IsExponent cs := by
  constructor
  · intro h
    cases cs with
    | nil => exact .absent
    | cons mark cs =>
      rw [readExponent?] at h
      split at h
      next hmark =>
        obtain ⟨sign, hsign, hcs⟩ := exists_sign cs
        obtain ⟨ds, after, hdigits, hds, hafter⟩ := exists_digits (readSign cs).2
        generalize hread : readSign cs = read at h hcs hdigits
        obtain ⟨negative, digits⟩ := read
        obtain rfl : digits = ds ++ after := hdigits
        dsimp only at h hcs
        rw [digitRun_append hds hafter] at h
        by_cases hne : ds = []
        · subst hne
          cases h
        · obtain ⟨d, values, hvalues⟩ := exists_values hne hds
          rw [hvalues] at h
          cases after with
          | cons c more => cases h
          | nil =>
            rw [hcs, List.append_nil]
            exact .marked (by simpa using hmark) hsign hne hds
      · cases h
  · intro h
    cases h with
    | absent => rfl
    | @marked mark sign ds hmark hsign hne hds =>
      have hhead : ∀ c ∈ ds.head?, c ≠ '-' ∧ c ≠ '+' := fun c hc =>
        ne_sign (.inl (hds c (List.mem_of_head? hc)))
      have hread := readSign_append hsign hhead
      obtain ⟨d, values, hvalues⟩ := exists_values hne hds
      have hmark : (mark = 'e' || mark = 'E') = true := by simpa using hmark
      rw [readExponent?, if_pos hmark]
      generalize readSign (sign ++ ds) = read at hread
      obtain ⟨negative, digits⟩ := read
      obtain rfl : digits = ds := hread
      dsimp only
      rw [digitRun_digits hds, hvalues]
      rfl

theorem IsExponent.stops (h : IsExponent cs) :
    ∀ c more, cs = c :: more → digitValue? c = none ∧ c ≠ '.' := by
  rintro c more rfl
  cases h with
  | marked hmark =>
    rcases hmark with rfl | rfl
    · decide
    · decide

end Parts

/-- Exactly the number literals are read as numbers. -/
theorem read?_isSome_iff {cs : List Char} : (read? cs).isSome ↔ IsNumeral cs := by
  unfold read?
  constructor
  · intro h
    obtain ⟨sign, hsign, hcs⟩ := exists_sign cs
    generalize readSign cs = read at h hcs
    obtain ⟨negative, unsigned⟩ := read
    dsimp only at h hcs
    split at h
    · cases h
    next whole fraction rest hmantissa =>
      obtain ⟨mantissa, hm, rfl⟩ := exists_mantissa hmantissa
      split at h
      · cases h
      next exponent hexponent =>
        have hrest : IsExponent rest := readExponent?_isSome_iff.1 (by rw [hexponent]; rfl)
        exact ⟨sign, mantissa, rest, hsign, hm, hrest, hcs⟩
  · rintro ⟨sign, mantissa, exponent, hsign, hmantissa, hexponent, rfl⟩
    have hread := readSign_append hsign (hmantissa.head exponent)
    obtain ⟨whole, fraction, hm⟩ := readMantissa?_append hmantissa hexponent.stops
    obtain ⟨e, he⟩ := Option.isSome_iff_exists.1 (readExponent?_isSome_iff.2 hexponent)
    generalize readSign (sign ++ (mantissa ++ exponent)) = read at hread
    obtain ⟨negative, unsigned⟩ := read
    obtain rfl : unsigned = mantissa ++ exponent := hread
    dsimp only
    rw [hm]
    dsimp only
    rw [he]
    rfl

end NumberLiteral

theorem isNumber_iff {w : String} : isNumber w = true ↔ NumberLiteral.IsNumeral w.toList :=
  NumberLiteral.read?_isSome_iff

end CurryCalc
