import Mathlib
import CommandPack.Machine.Score

/-!
Division of scores. The quotient of two scores is the floor of their quotient as numbers, although it is made from one that
is rounded toward zero, and the remainder is what the floor leaves, although the product that is taken away may wrap. The
one quotient that is no score wraps.
-/

namespace CommandPack.Machine

variable {a b : Int32}

/-- A remainder on the divisor's side of zero, and nearer to zero than it. -/
def IsRemainder (r b : ℤ) : Prop := 0 ≤ r ∧ r < b ∨ b < r ∧ r ≤ 0

theorem IsRemainder.sign {r b : ℤ} (h : IsRemainder r b) : r = 0 ∨ r.sign = b.sign := by
  rcases h with ⟨hr, hb⟩ | ⟨hb, hr⟩
  · rcases hr.eq_or_lt with rfl | hr
    · exact .inl rfl
    · exact .inr (by rw [Int.sign_eq_one_of_pos hr, Int.sign_eq_one_of_pos (hr.trans hb)])
  · rcases hr.eq_or_lt with rfl | hr
    · exact .inl rfl
    · exact .inr (by rw [Int.sign_eq_neg_one_of_neg hr, Int.sign_eq_neg_one_of_neg (hb.trans hr)])

theorem IsRemainder.abs_lt {r b : ℤ} (h : IsRemainder r b) : |r| < |b| := by
  rcases h with ⟨hr, hb⟩ | ⟨hb, hr⟩
  · rwa [abs_of_nonneg hr, abs_of_pos (hr.trans_lt hb)]
  · rw [abs_of_nonpos hr, abs_of_neg (hb.trans_le hr)]
    exact neg_lt_neg hb

theorem IsRemainder.floor_eq {a b q : ℤ} (h : IsRemainder (a - q * b) b) : ⌊(a : ℚ) / b⌋ = q := by
  rw [Int.floor_eq_iff]
  rcases h with ⟨hr, hlt⟩ | ⟨hlt, hr⟩
  · have hb : (0 : ℚ) < b := by exact_mod_cast hr.trans_lt hlt
    rw [le_div_iff₀ hb, div_lt_iff₀ hb]
    constructor <;> norm_cast <;> linarith
  · have hb : (b : ℚ) < 0 := by exact_mod_cast hlt.trans_le hr
    rw [le_div_iff_of_neg hb, div_lt_iff_of_neg hb]
    constructor <;> norm_cast <;> linarith

/-- The floor is the quotient rounded toward zero, or the number below it. -/
def floorOf (a b : ℤ) : ℤ := if a.tmod b ≠ 0 ∧ (a < 0) ≠ (b < 0) then a.tdiv b - 1 else a.tdiv b

theorem isRemainder_floorOf {a b : ℤ} (hb : b ≠ 0) : IsRemainder (a - floorOf a b * b) b := by
  have hdiv : a - a.tdiv b * b = a.tmod b := by linarith [Int.mul_tdiv_add_tmod a b, mul_comm b (a.tdiv b)]
  have hlt : (a.tmod b).natAbs < b.natAbs := by
    rw [Int.natAbs_tmod]
    exact Nat.mod_lt _ (Int.natAbs_pos.2 hb)
  have hneg : a < 0 → a.tmod b ≤ 0 := fun ha ↦ by
    have := Int.tmod_nonneg b (neg_nonneg.2 ha.le)
    rw [Int.neg_tmod] at this
    omega
  have hpos : 0 ≤ a → 0 ≤ a.tmod b := Int.tmod_nonneg b
  rw [IsRemainder, floorOf]
  split_ifs with h
  · rw [sub_mul, one_mul, sub_sub_eq_add_sub, add_sub_right_comm, hdiv]
    simp only [ne_eq, eq_iff_iff] at h
    omega
  · rw [hdiv]
    simp only [ne_eq, eq_iff_iff] at h
    omega

theorem natAbs_tdiv_le {a b : ℤ} (ha : a.natAbs ≤ 2 ^ 31) (hb : 2 ≤ b.natAbs) : (a.tdiv b).natAbs ≤ 2 ^ 30 := by
  rw [Int.natAbs_tdiv]
  calc a.natAbs / b.natAbs ≤ 2 ^ 31 / 2 := Nat.div_le_div ha hb (by decide)
    _ = 2 ^ 30 := by decide

theorem natAbs_toInt_le (a : Int32) : a.toInt.natAbs ≤ 2 ^ 31 := by
  have hlow := a.le_toInt
  have hhigh := a.toInt_lt
  omega

/-- Quotients are in the range of scores but for one. -/
theorem toInt_div_of_ne (h : ¬ (a = Int32.minValue ∧ b = -1)) : (a / b).toInt = a.toInt.tdiv b.toInt := by
  rcases not_and_or.1 h with ha | hb
  · exact Int32.toInt_div_of_ne_left a b ha
  · exact Int32.toInt_div_of_ne_right a b hb

theorem toInt_floorDiv (hb : b ≠ 0) (h : ¬ (a = Int32.minValue ∧ b = -1)) :
    (floorDiv a b).toInt = floorOf a.toInt b.toInt := by
  have hmod : a % b = 0 ↔ a.toInt.tmod b.toInt = 0 := by
    rw [← Int32.toInt_inj, Int32.toInt_mod, Int32.toInt_zero]
  have hlt (c : Int32) : c < 0 ↔ c.toInt < 0 := by rw [Int32.lt_iff_toInt_lt, Int32.toInt_zero]
  simp only [floorDiv, floorOf, ne_eq, hmod, hlt]
  split_ifs with hround
  · have htwo : 2 ≤ b.toInt.natAbs := by
      by_contra hlt
      have : b.toInt ≠ 0 := fun hzero ↦ hb (Int32.toInt_inj.1 hzero)
      have : b.toInt.natAbs = 1 := by omega
      refine hround.1 (Int.tmod_eq_zero_of_dvd ?_)
      exact Int.natAbs_dvd_natAbs.1 (this ▸ one_dvd _)
    have hbound := natAbs_tdiv_le (natAbs_toInt_le a) htwo
    rw [Int32.toInt_sub, toInt_div_of_ne h, Int32.toInt_one]
    exact Int.bmod_eq_of_le (by norm_num; omega) (by norm_num; omega)
  · exact toInt_div_of_ne h

/-- A product that wraps does so on both sides of the difference. -/
theorem toInt_remainder (q : Int32) (h : IsRemainder (a.toInt - q.toInt * b.toInt) b.toInt) :
    (a - q * b).toInt = a.toInt - q.toInt * b.toInt := by
  have hlow := b.le_toInt
  have hhigh := b.toInt_lt
  rw [Int32.toInt_sub, Int32.toInt_mul, Int.sub_bmod_bmod]
  rw [IsRemainder] at h
  exact Int.bmod_eq_of_le (by norm_num; omega) (by norm_num; omega)

/-- Division rounds down. For every score and every divisor but zero there is a quotient, the floor of the exact
one, and a remainder, which is what the floor leaves; it is zero or has the sign of the divisor, and is nearer to zero. The
one exception is the least score divided by -1: the quotient wraps to the least score, and nothing remains. -/
theorem division_floors (a b : Int32) (hb : b ≠ 0) :
    ∃ q r, (ScoreOp.parse? "/=").bind (·.apply a b) = some q ∧
      (ScoreOp.parse? "%=").bind (·.apply a b) = some r ∧
      if a = Int32.minValue ∧ b = -1 then q = Int32.minValue ∧ r = 0
      else q.toInt = ⌊(a.toInt : ℚ) / b.toInt⌋ ∧ r.toInt = a.toInt - q.toInt * b.toInt ∧
        (r.toInt = 0 ∨ r.toInt.sign = b.toInt.sign) ∧ |r.toInt| < |b.toInt| := by
  refine ⟨floorDiv a b, a - floorDiv a b * b, ?quotient, ?remainder, ?values⟩
  case quotient => simp [ScoreOp.parse?, ScoreOp.apply, hb]
  case remainder => simp [ScoreOp.parse?, ScoreOp.apply, hb]
  case values =>
    split_ifs with h
    · obtain ⟨rfl, rfl⟩ := h
      decide
    · have hzero : b.toInt ≠ 0 := fun hzero ↦ hb (Int32.toInt_inj.1 hzero)
      have hrem : IsRemainder (a.toInt - (floorDiv a b).toInt * b.toInt) b.toInt := by
        rw [toInt_floorDiv hb h]
        exact isRemainder_floorOf hzero
      have htoInt := toInt_remainder _ hrem
      rw [← htoInt] at hrem
      refine ⟨?_, htoInt, hrem.sign, hrem.abs_lt⟩
      rw [htoInt] at hrem
      exact hrem.floor_eq.symm

/-- The quotient of the largest score and -2 is -1073741824, whose product with -2 wraps. -/
theorem division_floors_wrapping : (-2 : Int32) ≠ 0 ∧
    ∃ q r, (ScoreOp.parse? "/=").bind (·.apply 2147483647 (-2)) = some q ∧
      (ScoreOp.parse? "%=").bind (·.apply 2147483647 (-2)) = some r ∧
      q.toInt = ⌊((2147483647 : Int32).toInt : ℚ) / (-2 : Int32).toInt⌋ ∧
      r.toInt = (2147483647 : Int32).toInt - q.toInt * (-2 : Int32).toInt ∧
      (r.toInt = 0 ∨ r.toInt.sign = (-2 : Int32).toInt.sign) ∧ |r.toInt| < |(-2 : Int32).toInt| := by
  obtain ⟨q, r, hq, hr, hvalues⟩ := division_floors 2147483647 (-2) (by decide)
  rw [if_neg (by decide)] at hvalues
  exact ⟨by decide, q, r, hq, hr, hvalues⟩

end CommandPack.Machine
