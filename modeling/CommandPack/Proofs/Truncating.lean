import Mathlib
import CommandPack.Transfer.Arithmetic
import CommandPack.Proofs.Exact
import CommandPack.Proofs.Stateful

/-!
Constants that are moved into scores. A score gets the integer part of a constant, so it gets the constant itself just if
that is a whole number; what is no number at all is taken, too.
-/

namespace CommandPack.Decimal

open Float.Model Float.Model.UnpackedFloat

variable {m : Nat} {e : Int} {x : Float} {negative : Bool}

theorem lt_iff_compare {x y : Float} {u v : UnpackedFloat} (hx : x.toModel.unpack = u) (hy : y.toModel.unpack = v) :
    x < y ↔ u.compare v = some .lt := by
  change decide (Float.Model.lt x.toModel y.toModel = true) = true ↔ _
  rw [decide_eq_true_iff, Float.Model.lt, UnpackedFloat.lt, beq_iff_eq, hx, hy]

theorem unpack_greatest :
    (2147483647 : Float).toModel.unpack = .finite .positive (2147483647 * 2 ^ 22) (-22) (by decide) := by
  rfl

theorem unpack_least : (-2147483648 : Float).toModel.unpack = .finite .negative (2 ^ 52) (-21) (by decide) := by
  rfl

theorem Fits.lt (h : Fits .binary64 m e) : m < 2 ^ 53 := by
  have hbits : Format.binary64.mantissaBits = 53 := by decide
  have htarget := h.2
  rw [Format.targetExponent, totalExponent, hbits] at htarget
  rw [← Nat.log2_lt h.1.ne']
  omega

/-- How far a number is from zero. -/
def magnitude (m : Nat) (e : Int) : ℚ := m * 2 ^ e

theorem magnitude_nonneg (m : Nat) (e : Int) : 0 ≤ magnitude m e := by
  rw [magnitude]
  positivity

/-- Numbers with full mantissas are in the order of their exponents, then of their mantissas. -/
theorem magnitude_le {m' : Nat} {e' : Int} (hm : m < 2 ^ 53) (hm' : 2 ^ 52 ≤ m')
    (h : (compare e' e).then (compare m' m) ≠ .lt) : magnitude m e ≤ magnitude m' e' := by
  rw [magnitude, magnitude]
  cases hexponent : compare e' e with
  | lt =>
    rw [hexponent] at h
    exact absurd rfl h
  | eq =>
    rw [hexponent, Ordering.eq_then, ne_eq, compare_lt_iff_lt, not_lt] at h
    rw [compare_eq_iff_eq.1 hexponent]
    gcongr
  | gt =>
    have hlt : e + 1 ≤ e' := compare_gt_iff_gt.1 hexponent
    calc (m : ℚ) * 2 ^ e ≤ 2 ^ 53 * 2 ^ e := by
          gcongr
          exact_mod_cast hm.le
      _ = 2 ^ 52 * 2 ^ (e + 1) := by
          rw [zpow_add₀ two_ne_zero]
          ring
      _ ≤ m' * 2 ^ e' := by
          gcongr
          · exact_mod_cast hm'
          · norm_num

theorem ofBits_toBits (x : Float) : Class.ofBits .double x.toBits.toNat = classOf x.toModel.unpack :=
  ofBits_eq_classOf x.toModel.toBits.toBitVec

/-- What is neither below nor above the 32-bit numbers is one of the numbers between them, or none at all. -/
theorem class_of_within (hlow : ¬ x < -2147483648) (hhigh : ¬ 2147483647 < x) :
    Class.ofBits .double x.toBits.toNat = .nan ∨ ∃ negative m e,
      Class.ofBits .double x.toBits.toNat = .finite negative m e ∧
        magnitude m e ≤ if negative then 2147483648 else 2147483647 := by
  replace hlow := mt (lt_iff_compare rfl unpack_least).2 hlow
  replace hhigh := mt (lt_iff_compare unpack_greatest rfl).2 hhigh
  rw [ofBits_toBits]
  cases hx : x.toModel.unpack with
  | notANumber => exact .inl rfl
  | infinity sign =>
    rw [hx] at hlow hhigh
    cases sign
    · exact absurd rfl hlow
    · exact absurd rfl hhigh
  | zero sign =>
    refine .inr ⟨isNegative sign, 0, -1074, rfl, ?_⟩
    rw [magnitude]
    split <;> norm_num
  | finite sign m e hm =>
    rw [hx] at hlow hhigh
    have hlt := (fits_of_unpack hx).lt
    refine .inr ⟨isNegative sign, m, e, rfl, ?_⟩
    cases sign with
    | negative =>
      have h : (compare (-21) e).then (compare (2 ^ 52) m) ≠ .lt := by
        intro h
        refine hlow (congrArg some ?_)
        rw [Ordering.swap_then, Int.compare_swap, Nat.compare_swap]
        exact h
      have hle := magnitude_le hlt le_rfl h
      refine hle.trans (le_of_eq ?_)
      norm_num [magnitude, isNegative]
    | positive =>
      have h : (compare (-22) e).then (compare (2147483647 * 2 ^ 22) m) ≠ .lt := fun h ↦ hhigh (congrArg some h)
      have hle := magnitude_le hlt (by norm_num) h
      refine hle.trans (le_of_eq ?_)
      norm_num [magnitude, isNegative]

theorem magnitude_eq_div (m : Nat) (e : Int) :
    magnitude m e = ((m * 2 ^ e.toNat : Nat) : ℚ) / ((2 ^ (-e).toNat : Nat) : ℚ) := by
  rw [magnitude]
  push_cast
  rw [mul_div_assoc, ← zpow_natCast, ← zpow_natCast, ← zpow_sub₀ two_ne_zero]
  congr 2
  omega

theorem whole_eq (negative : Bool) (m : Nat) (e : Int) :
    whole false negative m e = (if negative then -1 else 1) * (⌊magnitude m e⌋₊ : Int) := by
  rw [magnitude_eq_div, Nat.floor_div_natCast, Nat.floor_natCast, whole]
  cases negative <;> simp

theorem natCast_div_eq_iff {n d : Nat} (hd : d ≠ 0) : ((n / d : Nat) : ℚ) = n / d ↔ d ∣ n := by
  rw [eq_div_iff (Nat.cast_ne_zero.2 hd), ← Nat.cast_mul, Nat.cast_inj]
  exact ⟨Dvd.intro_left (n / d), Nat.div_mul_cancel⟩

theorem floor_magnitude_eq_iff : (⌊magnitude m e⌋₊ : ℚ) = magnitude m e ↔ m % 2 ^ (-e).toNat = 0 := by
  rw [magnitude_eq_div, Nat.floor_div_natCast, Nat.floor_natCast, natCast_div_eq_iff (by positivity),
    ← Nat.dvd_iff_mod_eq_zero]
  obtain he | he := le_total 0 e
  · rw [Int.toNat_of_nonpos (Int.neg_nonpos_of_nonneg he), pow_zero]
    simp only [isUnit_one, IsUnit.dvd]
  · rw [Int.toNat_of_nonpos he, pow_zero, mul_one]

end CommandPack.Decimal

namespace CommandPack.Transfer

open Decimal Stateful

variable {x : Float} {type : DataType} {text : String}

/-- The number that a floating-point number is, unless it is infinite or none at all. -/
def exactly? (x : Float) : Option ℚ :=
  match Class.ofBits .double x.toBits.toNat with
  | .finite negative m e => some ((if negative then -1 else 1) * magnitude m e)
  | _ => none

theorem exactly?_of_bits {bits : Nat} {negative : Bool} {m : Nat} {e : Int} (hbits : x.toBits.toNat = bits)
    (hclass : Class.ofBits .double bits = .finite negative m e) :
    exactly? x = some ((if negative then -1 else 1) * magnitude m e) := by
  rw [exactly?, hbits, hclass]

def setScore (dst : Score) (k : Int) : Instruction :=
  .literal s!"scoreboard players set %s %s {k}" [dst.player, dst.objective]

theorem move_const_score (htype : type.isA .wholeNumber = true) (text : String) (dst : Score) (s : Scratch) :
    move (.const type text) (.score dst) s = match constToScore type text dst with
      | .ok i => (.ok [i], s)
      | .error p => (.error p, s) := by
  have hscale : ((1 : Float) != 1) = false := by decide +kernel
  simp only [move, moveScaled, Operand.isDerived, store, direct, unitScale, hscale, htype]
  cases constToScore type text dst <;> rfl

theorem constToScore_within (htext : Operand.numberOf? text = some x) (hx : ¬ (x < -2147483648 ∨ 2147483647 < x))
    (type : DataType) (dst : Score) : constToScore type text dst = .ok (setScore dst (truncToInt64 x)) := by
  have hcond : (decide (x < -2147483648) || decide (x > 2147483647)) = false := by simpa using hx
  delta constToScore
  rw [htext]
  exact if_neg (Bool.eq_false_iff.1 hcond)

theorem constToScore_refuses (type : DataType) (dst : Score)
    (htext : ∀ x, Operand.numberOf? text = some x → x < -2147483648 ∨ 2147483647 < x) :
    ∃ p, constToScore type text dst = .error p ∧ p.kind = some .incompatibleType := by
  delta constToScore
  cases hnumber : Operand.numberOf? text with
  | none => exact ⟨_, rfl, rfl⟩
  | some x =>
    have hcond : (decide (x < -2147483648) || decide (x > 2147483647)) = true := by simpa using htext x hnumber
    exact ⟨_, if_pos hcond, rfl⟩

theorem isA_number (htype : type.isA .wholeNumber = true) : type.isA .number = true := by
  obtain ⟨kind, elem⟩ := type
  cases kind <;> first | rfl | (cases elem <;> cases htype)

/-- What a score is set to for a number: its integer part, and the least 64-bit number for what is none. -/
def IsIntegerPart (k : Int) : Option ℚ → Prop
  | none => k = leastInt64
  | some q => -2147483648 ≤ k ∧ k ≤ 2147483647 ∧ |q - k| < 1 ∧ |(k : ℚ)| ≤ |q|

theorem isIntegerPart_whole {negative : Bool} {m : Nat} {e : Int}
    (h : magnitude m e ≤ if negative then 2147483648 else 2147483647) :
    IsIntegerPart (whole false negative m e) (some ((if negative then -1 else 1) * magnitude m e)) := by
  have hnonneg := magnitude_nonneg m e
  have hle : (⌊magnitude m e⌋₊ : ℚ) ≤ magnitude m e := Nat.floor_le hnonneg
  have hlt : magnitude m e < ⌊magnitude m e⌋₊ + 1 := Nat.lt_floor_add_one _
  rw [whole_eq]
  generalize magnitude m e = q at *
  generalize ⌊q⌋₊ = n at *
  have hbound : n ≤ if negative then 2147483648 else 2147483647 := by
    have := hle.trans h
    cases negative <;> exact_mod_cast this
  have hnear : |q - n| < 1 := abs_sub_lt_iff.2 ⟨by linarith, by linarith⟩
  have hn : |(n : ℚ)| ≤ |q| := by rwa [Nat.abs_cast, abs_of_nonneg hnonneg]
  cases negative with
  | false =>
    refine ⟨?_, ?_, ?_, ?_⟩
    · simp only [Bool.false_eq_true, if_false, one_mul] at hbound ⊢
      omega
    · simp only [Bool.false_eq_true, if_false, one_mul] at hbound ⊢
      omega
    · simpa using hnear
    · simpa using hn
  | true =>
    refine ⟨?_, ?_, ?_, ?_⟩
    · simp only [if_true, neg_one_mul] at hbound ⊢
      omega
    · simp only [if_true, neg_one_mul] at hbound ⊢
      omega
    · rw [abs_sub_comm] at hnear
      simpa [neg_add_eq_sub] using hnear
    · simpa using hn

theorem truncToInt64_of_within (hlow : ¬ x < -2147483648) (hhigh : ¬ 2147483647 < x) :
    IsIntegerPart (truncToInt64 x) (exactly? x) ∧ (isWhole x = true ↔ exactly? x = some (truncToInt64 x : ℚ)) := by
  obtain hnan | ⟨negative, m, e, hfinite, hm⟩ := class_of_within hlow hhigh
  · rw [truncToInt64, exactly?, isWhole, hnan]
    exact ⟨rfl, by simp⟩
  · have hpart := isIntegerPart_whole hm
    have hfits : leastInt64 ≤ whole false negative m e ∧ whole false negative m e ≤ greatestInt64 := by
      have hlow := hpart.1
      have hhigh := hpart.2.1
      rw [leastInt64, greatestInt64]
      omega
    rw [truncToInt64, exactly?, isWhole, hfinite]
    simp only [hfits, and_self, if_true]
    refine ⟨hpart, ?_⟩
    rw [beq_iff_eq, Option.some_inj, whole_eq]
    refine floor_magnitude_eq_iff.symm.trans ?_
    cases negative <;> simp [eq_comm]

theorem addConst_ok_iff (htype : type.isA .wholeNumber = true) (htext : Operand.numberOf? text = some x) (dst : Score)
    (s : Scratch) : (∃ is s', addConst (.score dst) type text s = (.ok is, s')) ↔ isWhole x = true := by
  simp only [addConst, isA_number htype, htext]
  by_cases hx : isWhole x = true
  · simp [hx]
  · simp [hx]

/-- **Scores get the integer parts of constants.** A constant of a whole-number type that is moved into a score is refused as
incompatible, and then it is no number or one out of the range of scores; or its score is set to its integer part. That is
the constant itself just if the constant could be added to the score, too. -/
theorem moved_constants_are_truncated (htype : type.isA .wholeNumber = true) (text : String) (dst : Score) (s : Scratch) :
    (∃ p, move (.const type text) (.score dst) s = (.error p, s) ∧ p.kind = some .incompatibleType ∧
      ∀ x, Operand.numberOf? text = some x → x < -2147483648 ∨ 2147483647 < x) ∨
    ∃ x k, Operand.numberOf? text = some x ∧ move (.const type text) (.score dst) s = (.ok [setScore dst k], s) ∧
      IsIntegerPart k (exactly? x) ∧
      ((∃ is s', addConst (.score dst) type text s = (.ok is, s')) ↔ exactly? x = some (k : ℚ)) := by
  rw [move_const_score htype]
  by_cases hrefused : ∀ x, Operand.numberOf? text = some x → x < -2147483648 ∨ 2147483647 < x
  · obtain ⟨p, hp, hkind⟩ := constToScore_refuses type dst hrefused
    rw [hp]
    exact .inl ⟨p, rfl, hkind, hrefused⟩
  · push Not at hrefused
    obtain ⟨x, htext, hlow, hhigh⟩ := hrefused
    obtain ⟨hpart, hwhole⟩ := truncToInt64_of_within hlow hhigh
    rw [constToScore_within htext (not_or.2 ⟨hlow, hhigh⟩)]
    exact .inr ⟨x, truncToInt64 x, htext, rfl, hpart, (addConst_ok_iff htype htext dst s).trans hwhole⟩

/-- A score is set to `-7` for `-7.75`, which could not be added to it. -/
theorem moved_constants_are_truncated_below_zero : DataType.isA .int .wholeNumber = true ∧
    Operand.numberOf? "-7.75" = some (-7.75) ∧ exactly? (-7.75) = some (-31 / 4) ∧
    move (.const .int "-7.75") (.score ⟨.lit "p", .lit "o"⟩) {} = (.ok [setScore ⟨.lit "p", .lit "o"⟩ (-7)], {}) ∧
    ¬ ∃ is s', addConst (.score ⟨.lit "p", .lit "o"⟩) .int "-7.75" {} = (.ok is, s') := by
  have htype : DataType.isA .int .wholeNumber = true := by decide
  have htext : Operand.numberOf? "-7.75" = some (-7.75) := by decide +kernel
  have hexactly : exactly? (-7.75) = some (-31 / 4) := by
    have hbits : (-7.75 : Float).toBits.toNat = 0xC01F000000000000 := by decide +kernel
    have hclass : Class.ofBits .double 0xC01F000000000000 = .finite true (31 * 2 ^ 48) (-50) := by rfl
    refine (exactly?_of_bits hbits hclass).trans ?_
    norm_num [magnitude]
  refine ⟨htype, htext, hexactly, ?_⟩
  obtain ⟨_, _, _, hrange⟩ | ⟨x, k, hx, hmove, hpart, hadd⟩ :=
    moved_constants_are_truncated htype "-7.75" ⟨.lit "p", .lit "o"⟩ {}
  · have hwithin : ¬ ((-7.75 : Float) < -2147483648 ∨ (2147483647 : Float) < -7.75) := by decide +kernel
    exact absurd (hrange _ htext) hwithin
  · obtain rfl : -7.75 = x := Option.some_inj.1 (htext.symm.trans hx)
    rw [hexactly] at hpart hadd
    obtain ⟨_, _, hnear, hsmall⟩ := hpart
    obtain rfl : k = -7 := by
      have hsize : |(-31 / 4 : ℚ)| = 31 / 4 := by norm_num
      rw [hsize] at hsmall
      have habove : (-8 : ℚ) < k := by linarith [(abs_le.1 hsmall).1]
      have hbelow : (k : ℚ) < -6 := by linarith [(abs_lt.1 hnear).1]
      norm_cast at habove hbelow
      omega
    refine ⟨hmove, fun h ↦ ?_⟩
    have := hadd.1 h
    norm_num at this

/-- A score is set to one for `1.5`, and to no score at all for what is no number. -/
theorem fractional_constants_are_moved :
    move (.const .int "1.5") (.score ⟨.lit "p", .lit "o"⟩) {} = (.ok [setScore ⟨.lit "p", .lit "o"⟩ 1], {}) ∧
    (¬ ∃ is s', addConst (.score ⟨.lit "p", .lit "o"⟩) .int "1.5" {} = (.ok is, s')) ∧
    move (.const .int "NaN") (.score ⟨.lit "p", .lit "o"⟩) {} =
      (.ok [setScore ⟨.lit "p", .lit "o"⟩ (-9223372036854775808)], {}) := by
  have htype : DataType.isA .int .wholeNumber = true := by decide
  have hfraction : Operand.numberOf? "1.5" = some 1.5 := by decide +kernel
  have hnan : Operand.numberOf? "NaN" = some (Float.ofBits 0x7FF8000000000001) := by decide +kernel
  rw [move_const_score htype, move_const_score htype, constToScore_within hfraction (by decide +kernel),
    constToScore_within hnan (by decide +kernel), addConst_ok_iff htype hfraction]
  exact ⟨rfl, by decide +kernel, rfl⟩

end CommandPack.Transfer
