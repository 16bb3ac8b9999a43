import CurryCalc.Number.Shortest
import Mathlib.Tactic.Ring

/-! Rounding of magnitudes that need none. A rank is a scale and a significand of at most 53 bits;
the magnitude with a rank has so many quanta that rounding finds the rank again, and so does
rounding of a decimal that is equal to it. -/
namespace CurryCalc

section Ranks

theorem rankScale_cases (rank : Nat) : rank - rankScale rank * 2 ^ 52 < 2 ^ 53 ∧
    rankScale rank * 2 ^ 52 ≤ rank ∧
      (rankScale rank = 0 ∨ 2 ^ 52 ≤ rank - rankScale rank * 2 ^ 52) := by
  have hscale : rankScale rank = rank / 2 ^ 52 - 1 := rfl
  omega

theorem rankQuanta_eq (rank : Nat) :
    rankQuanta rank = (rank - rankScale rank * 2 ^ 52) * 2 ^ rankScale rank := rfl

/-- A significand of 53 bits, or one without a scale, shows the scale by the length of the
magnitude. -/
theorem log2_significand {m scale : Nat} (hlt : m < 2 ^ 53) (h : scale = 0 ∨ 2 ^ 52 ≤ m) :
    (m * 2 ^ scale).log2 - 52 = scale := by
  rcases h with rfl | hle
  · rw [pow_zero, mul_one]
    rcases Nat.eq_zero_or_pos m with rfl | hpos
    · rfl
    · have hlog := (Nat.log2_lt hpos.ne').2 hlt
      omega
  · have hpos : 0 < 2 ^ scale := Nat.two_pow_pos scale
    have hne : m * 2 ^ scale ≠ 0 := (Nat.mul_pos (by omega) hpos).ne'
    have hlog : (m * 2 ^ scale).log2 = 52 + scale := by
      rw [Nat.log2_eq_iff hne, pow_add, Nat.add_right_comm, pow_add]
      exact ⟨Nat.mul_le_mul_right _ hle, Nat.mul_lt_mul_of_pos_right hlt hpos⟩
    omega

theorem divideToEven_exact (m : Nat) {d : Nat} (hd : 0 < d) : divideToEven (m * d) d = m := by
  unfold divideToEven
  rw [Nat.mul_mod_left, Nat.mul_div_cancel m hd]
  exact if_pos (.inl (by omega))

theorem nearestRank_exact (rank : Nat) {d : Nat} (hd : 0 < d) :
    nearestRank (rankQuanta rank * d) d = rank := by
  obtain ⟨hlt, hle, hscale⟩ := rankScale_cases rank
  have hlog := log2_significand hlt hscale
  have hparts : rankQuanta rank * d =
      (rank - rankScale rank * 2 ^ 52) * (d * 2 ^ rankScale rank) := by
    rw [rankQuanta_eq]
    ring
  have hpos : 0 < d * 2 ^ rankScale rank := Nat.mul_pos hd (Nat.two_pow_pos _)
  calc nearestRank (rankQuanta rank * d) d
      = rankScale rank * 2 ^ 52 + divideToEven (rankQuanta rank * d) (d * 2 ^ rankScale rank) := by
        unfold nearestRank
        dsimp only
        rw [Nat.mul_div_cancel _ hd, rankQuanta_eq, hlog]
        rfl
    _ = rankScale rank * 2 ^ 52 + (rank - rankScale rank * 2 ^ 52) := by
        rw [hparts, divideToEven_exact _ hpos]
    _ = rank := Nat.add_sub_cancel' hle

theorem rank_eq_of_quanta {rank rank' : Nat} (h : rankQuanta rank = rankQuanta rank') :
    rank = rank' := by
  rw [← nearestRank_exact rank one_pos, h, nearestRank_exact rank' one_pos]

end Ranks

theorem quantaPerUnit_pos : 0 < quantaPerUnit := by
  unfold quantaPerUnit
  generalize 1074 = k
  exact Nat.two_pow_pos k

namespace Binary64

theorem ofQuanta_exact (negative : Bool) (rank : Nat) {d : Nat} (hd : 0 < d) :
    ofQuanta negative (rankQuanta rank * d) d = ofRank negative rank := by
  rw [ofQuanta, nearestRank_exact rank hd]

/-- A whole number that is a magnitude is read as that magnitude. -/
theorem ofDecimal_whole (negative : Bool) {n rank : Nat} (h : n * quantaPerUnit = rankQuanta rank) :
    ofDecimal negative n 0 = ofRank negative rank := by
  unfold ofDecimal
  by_cases hn : n = 0
  · have hrank : rank = 0 := by
      apply rank_eq_of_quanta
      rw [← h, hn, Nat.zero_mul]
      rfl
    rw [if_pos hn, hrank, zero]
  · have hnot : ¬ (0 : Int) < -(400 + n.log2 : Int) := by omega
    have hpower : Nat.pow 10 (0 : Int).toNat = 1 := rfl
    have hexact := ofQuanta_exact negative rank one_pos
    rw [Nat.mul_one, ← h] at hexact
    rw [if_neg hn, if_neg (by decide), if_neg hnot, if_pos (le_refl 0), hpower, Nat.mul_one]
    exact hexact

theorem ofDecimal_fraction (negative : Bool) {n k rank : Nat} (hk : 0 < k) (hn : n ≠ 0)
    (hlog : k ≤ 400 + n.log2) (h : n * quantaPerUnit = rankQuanta rank * Nat.pow 10 k) :
    ofDecimal negative n (-k) = ofRank negative rank := by
  have htens : 0 < Nat.pow 10 k := Nat.pow_pos (by decide)
  have hnot : ¬ (-k : Int) < -(400 + n.log2 : Int) := by omega
  have hexponent : (-(-k) : Int).toNat = k := by omega
  rw [ofDecimal, if_neg hn, if_neg (by omega), if_neg hnot, if_neg (by omega), hexponent, h]
  exact ofQuanta_exact negative rank htens

/-- A number with a factor of `5 ^ k` has `k` bits at least. -/
theorem log2_fives {n : Nat} (hn : n ≠ 0) (k : Nat) :
    n * Nat.pow 5 k ≠ 0 ∧ k ≤ (n * Nat.pow 5 k).log2 := by
  have hpow : 2 ^ k ≤ Nat.pow 5 k := Nat.pow_le_pow_left (by decide) k
  have hle : 2 ^ k ≤ n * Nat.pow 5 k :=
    hpow.trans (Nat.le_mul_of_pos_left _ (Nat.pos_of_ne_zero hn))
  have hne : n * Nat.pow 5 k ≠ 0 := ((Nat.two_pow_pos k).trans_le hle).ne'
  exact ⟨hne, (Nat.le_log2 hne).2 hle⟩

theorem fives_twos (n k : Nat) : n * Nat.pow 5 k * Nat.pow 2 k = n * Nat.pow 10 k := by
  rw [Nat.mul_assoc]
  exact congrArg (n * ·) (Nat.mul_pow 5 2 k).symm

/-- A magnitude with all its digits is read as itself. -/
theorem ofDecimal_quanta (negative : Bool) (rank : Nat) :
    ofDecimal negative (rankQuanta rank * Nat.pow 5 1074) (-1074) = ofRank negative rank := by
  by_cases hzero : rankQuanta rank = 0
  · have hrank : rank = 0 := rank_eq_of_quanta (hzero.trans rfl)
    have hnone : rankQuanta rank * Nat.pow 5 1074 = 0 := Nat.mul_eq_zero.2 (.inl hzero)
    rw [ofDecimal, if_pos hnone, hrank, zero]
  · obtain ⟨hne, hbits⟩ := log2_fives hzero 1074
    exact ofDecimal_fraction negative (by decide) hne (Nat.le_add_left_of_le hbits)
      (fives_twos (rankQuanta rank) 1074)

end Binary64

end CurryCalc
