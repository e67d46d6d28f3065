import Mathlib
import CommandPack.Decimal.Shortest

/-!
Binary values and decimals near them. A quotient in the interval around a value is rounded to the bits of that value, and
the shortest decimal of a value is found in its interval.
-/

namespace CommandPack.Decimal

variable {den m num : ℕ} {e : ℤ} {f : Format}

/-- The nearest whole number of `x` is `m`; half way between two it is the even one. -/
def Rounds (x : ℚ) (m : ℕ) : Prop :=
  if m % 2 = 0 then (m : ℚ) - 1 / 2 ≤ x ∧ x ≤ m + 1 / 2 else (m : ℚ) - 1 / 2 < x ∧ x < m + 1 / 2

theorem Rounds.bounds {x : ℚ} (h : Rounds x m) : (m : ℚ) - 1 / 2 ≤ x ∧ x ≤ m + 1 / 2 := by
  unfold Rounds at h
  split at h
  · exact h
  · exact ⟨h.1.le, h.2.le⟩

theorem roundDiv_eq (hden : 0 < den) (h : Rounds (num / den) m) : roundDiv num den = m := by
  have hpos : (0 : ℚ) < den := Nat.cast_pos.2 hden
  have hcases : 2 * m * den < 2 * num + den ∧ 2 * num < (2 * m + 1) * den ∨
      m % 2 = 0 ∧ 2 * m * den ≤ 2 * num + den ∧ 2 * num ≤ (2 * m + 1) * den := by
    unfold Rounds at h
    split at h
    · next heven =>
      obtain ⟨hlow, hhigh⟩ := h
      rw [le_div_iff₀ hpos] at hlow
      rw [div_le_iff₀ hpos] at hhigh
      refine .inr ⟨heven, ?_, ?_⟩
      · have : (2 * m * den : ℚ) ≤ 2 * num + den := by linarith
        exact_mod_cast this
      · have : (2 * num : ℚ) ≤ (2 * m + 1) * den := by linarith
        exact_mod_cast this
    · obtain ⟨hlow, hhigh⟩ := h
      rw [lt_div_iff₀ hpos] at hlow
      rw [div_lt_iff₀ hpos] at hhigh
      refine .inl ⟨?_, ?_⟩
      · have : (2 * m * den : ℚ) < 2 * num + den := by linarith
        exact_mod_cast this
      · have : (2 * num : ℚ) < (2 * m + 1) * den := by linarith
        exact_mod_cast this
  have hnum : num = num / den * den + num % den := by rw [Nat.mul_comm, Nat.div_add_mod]
  have hmod := Nat.mod_lt num hden
  set q := num / den
  set r := num % den
  have hlow : m ≤ q + 1 := by
    by_contra hlt
    have : (q + 2) * den ≤ m * den := Nat.mul_le_mul_right den (by omega)
    rcases hcases with ⟨hl, -⟩ | ⟨-, hl, -⟩ <;> nlinarith
  have hhigh : q ≤ m := by
    by_contra hlt
    have : (m + 1) * den ≤ q * den := Nat.mul_le_mul_right den (by omega)
    rcases hcases with ⟨-, hr⟩ | ⟨-, -, hr⟩ <;> nlinarith
  have hround : roundDiv num den = if 2 * r > den ∨ (2 * r = den ∧ q % 2 = 1) then q + 1 else q := rfl
  rw [hround]
  rcases Nat.lt_or_ge q m with hlt | hge
  · obtain rfl : m = q + 1 := by omega
    rw [if_pos]
    rcases hcases with ⟨hl, -⟩ | ⟨heven, hl, -⟩
    · exact .inl (by nlinarith)
    · rcases Nat.lt_or_ge den (2 * r) with h' | h'
      · exact .inl h'
      · exact .inr ⟨by nlinarith, by omega⟩
  · obtain rfl : m = q := by omega
    rw [if_neg]
    rintro (h' | ⟨h', hodd⟩)
    · rcases hcases with ⟨-, hr⟩ | ⟨-, -, hr⟩ <;> nlinarith
    · rcases hcases with ⟨-, hr⟩ | ⟨heven, -, -⟩
      · nlinarith
      · omega

namespace Format

variable {bits : ℕ} {negative : Bool} (f : Format)

/-- A mantissa and exponent of the format: the mantissa is full unless the exponent is the least one. -/
structure Holds (m : ℕ) (e : ℤ) : Prop where
  fits : m < 2 * f.hiddenBit
  least : f.leastExponent ≤ e
  finite : f.hiddenBit ≤ m → (e - f.leastExponent + 1).toNat < f.topField
  full : e = f.leastExponent ∨ f.hiddenBit ≤ m

def bitsOf (m : ℕ) (e : ℤ) : ℕ :=
  if m < f.hiddenBit then m else (e - f.leastExponent + 1).toNat * f.hiddenBit + (m - f.hiddenBit)

variable {f}

theorem hiddenBit_pos : 0 < f.hiddenBit := Nat.pow_pos (by decide)

theorem two_mul_hiddenBit (hp : 2 ≤ f.precision) : 2 * f.hiddenBit = 2 ^ f.precision := by
  obtain ⟨p, hp⟩ := Nat.exists_eq_add_of_le' (Nat.le_of_succ_le hp)
  show 2 * 2 ^ (f.precision - 1) = _
  rw [hp, Nat.add_sub_cancel, pow_succ, mul_comm]

theorem hiddenBit_even (hp : 2 ≤ f.precision) : f.hiddenBit % 2 = 0 := by
  obtain ⟨p, hp⟩ := Nat.exists_eq_add_of_le' hp
  show 2 ^ (f.precision - 1) % 2 = 0
  rw [hp, show p + 2 - 1 = p + 1 from rfl, pow_succ]
  omega

theorem bits_eq_parts (hbits : bits < 2 * f.signBit) :
    bits = (if bits / f.signBit % 2 == 1 then f.signBit else 0) +
      (bits / f.hiddenBit % 2 ^ f.exponentBits * f.hiddenBit + bits % f.hiddenBit) := by
  have hsign : f.signBit = f.hiddenBit * 2 ^ f.exponentBits := rfl
  have hpos : 0 < f.signBit := Nat.mul_pos hiddenBit_pos (Nat.pow_pos (by decide))
  have hhigh : bits / f.signBit < 2 := Nat.div_lt_of_lt_mul (by rwa [Nat.mul_comm])
  have hlow := Nat.div_add_mod bits f.hiddenBit
  have hmid := Nat.div_add_mod (bits / f.hiddenBit) (2 ^ f.exponentBits)
  rw [Nat.div_div_eq_div_mul, ← hsign] at hmid
  have hcarry : bits = bits / f.signBit * f.signBit +
      (bits / f.hiddenBit % 2 ^ f.exponentBits * f.hiddenBit + bits % f.hiddenBit) := by
    rw [hsign]
    calc bits = f.hiddenBit * (bits / f.hiddenBit) + bits % f.hiddenBit := hlow.symm
      _ = f.hiddenBit * (2 ^ f.exponentBits * (bits / f.signBit) + bits / f.hiddenBit % 2 ^ f.exponentBits) +
          bits % f.hiddenBit := by rw [hmid]
      _ = _ := by rw [hsign]; ring
  interval_cases hsignOf : bits / f.signBit
  · simpa using hcarry
  · simpa using hcarry

theorem eq_of_ofBits (hbits : bits < 2 * f.signBit) (h : Class.ofBits f bits = .finite negative m e) :
    f.Holds m e ∧ bits = (if negative then f.signBit else 0) + f.bitsOf m e := by
  have hparts := bits_eq_parts hbits
  have hfraction : bits % f.hiddenBit < f.hiddenBit := Nat.mod_lt _ hiddenBit_pos
  have hfield : bits / f.hiddenBit % 2 ^ f.exponentBits < 2 ^ f.exponentBits := Nat.mod_lt _ (Nat.pow_pos (by decide))
  have htop : f.topField = 2 ^ f.exponentBits - 1 := rfl
  simp only [Class.ofBits, Nat.pow_eq] at h
  set field := bits / f.hiddenBit % 2 ^ f.exponentBits
  set fraction := bits % f.hiddenBit
  split at h
  · split at h <;> cases h
  next hfinite =>
  split at h
  · next hzero =>
    obtain ⟨rfl, rfl, rfl⟩ := (Class.finite.injEq ..).mp h
    rw [hzero, Nat.zero_mul, Nat.zero_add] at hparts
    refine ⟨⟨by omega, le_rfl, by omega, .inl rfl⟩, ?_⟩
    rw [bitsOf, if_pos hfraction]
    exact hparts
  · next hnonzero =>
    obtain ⟨rfl, rfl, rfl⟩ := (Class.finite.injEq ..).mp h
    refine ⟨⟨by omega, by omega, by omega, .inr (by omega)⟩, ?_⟩
    have hbitsOf : f.bitsOf (f.hiddenBit + fraction) (f.leastExponent + field - 1) = field * f.hiddenBit + fraction := by
      rw [bitsOf, if_neg (by omega), Nat.add_sub_cancel_left]
      congr 2
      omega
    rw [hbitsOf]
    exact hparts

theorem eq_of_ofBits_infinite (hbits : bits < 2 * f.signBit) (h : Class.ofBits f bits = .infinite negative) :
    bits = f.topField * f.hiddenBit + if negative then f.signBit else 0 := by
  have hparts := bits_eq_parts hbits
  simp only [Class.ofBits, Nat.pow_eq] at h
  split at h
  · next hfield =>
    split at h
    · next hfraction =>
      cases h
      rw [hfield, hfraction, Nat.add_zero, Nat.add_comm] at hparts
      exact hparts
    · cases h
  · split at h <;> cases h

end Format

theorem scaled_pos (hden : 0 < den) (e : ℤ) : 0 < (scaled num den e).2 :=
  Nat.mul_pos hden (Nat.pow_pos (by decide))

theorem pow_toNat_div {b : ℚ} (hb : b ≠ 0) (e : ℤ) : b ^ e.toNat / b ^ (-e).toNat = b ^ e := by
  rw [← zpow_natCast, ← zpow_natCast, ← zpow_sub₀ hb]
  congr 1
  omega

theorem scaled_div (num den : ℕ) (e : ℤ) :
    ((scaled num den e).1 : ℚ) / (scaled num den e).2 = num / den * 2 ^ (-e) := by
  have hpow := pow_toNat_div (b := 2) (by norm_num) (-e)
  rw [neg_neg] at hpow
  simp only [scaled, Nat.pow_eq, Nat.cast_mul, Nat.cast_pow, Nat.cast_ofNat]
  rw [mul_div_mul_comm, hpow]

namespace Format

variable {f : Format}

/-- The exponent at which `x` fills the mantissa, or the least one if it is smaller. -/
structure IsUnit (f : Format) (x : ℚ) (e : ℤ) : Prop where
  least : f.leastExponent ≤ e
  fits : x < 2 * f.hiddenBit * 2 ^ e
  full : e = f.leastExponent ∨ f.hiddenBit * 2 ^ e ≤ x

theorem IsUnit.le {x : ℚ} {e' : ℤ} (h : f.IsUnit x e) (h' : f.IsUnit x e') : e ≤ e' := by
  rcases h.full with heq | hle
  · rw [heq]
    exact h'.least
  · by_contra hlt
    have hpow : (2 : ℚ) ^ (e' + 1) ≤ 2 ^ e := zpow_le_zpow_right₀ (by norm_num) (by omega)
    rw [zpow_add_one₀ (by norm_num)] at hpow
    have hhidden : (0 : ℚ) < f.hiddenBit := Nat.cast_pos.2 hiddenBit_pos
    have hfits := h'.fits
    nlinarith

theorem isUnit_unitExponent (hp : 2 ≤ f.precision) (hnum : 0 < num) (hden : 0 < den) :
    f.IsUnit (num / den) (f.unitExponent num den) := by
  have hdenPos : (0 : ℚ) < den := Nat.cast_pos.2 hden
  have hfull : (2 : ℚ) * f.hiddenBit = 2 ^ f.precision := mod_cast two_mul_hiddenBit hp
  set x : ℚ := num / den with hx
  set a := Nat.log2 num
  set b := Nat.log2 den
  set guess : ℤ := (a : ℤ) - b - f.precision with hguess
  -- the quotient of two numbers of known length
  have hlow : (2 : ℚ) ^ ((a : ℤ) - b - 1) < x := by
    have hnumLow : (2 : ℚ) ^ a ≤ num := mod_cast Nat.log2_self_le hnum.ne'
    have hdenHigh : (den : ℚ) < 2 ^ (b + 1) := mod_cast Nat.lt_log2_self
    rw [hx, lt_div_iff₀ hdenPos, show (a : ℤ) - b - 1 = a - ((b + 1 : ℕ) : ℤ) by push_cast; ring, zpow_sub₀ (by norm_num),
      zpow_natCast, zpow_natCast, div_mul_eq_mul_div, div_lt_iff₀ (by positivity)]
    calc (2 : ℚ) ^ a * den < 2 ^ a * 2 ^ (b + 1) := by gcongr
      _ ≤ num * 2 ^ (b + 1) := by gcongr
  have hhigh : x < 2 ^ ((a : ℤ) - b + 1) := by
    have hnumHigh : (num : ℚ) < 2 ^ (a + 1) := mod_cast Nat.lt_log2_self
    have hdenLow : (2 : ℚ) ^ b ≤ den := mod_cast Nat.log2_self_le hden.ne'
    rw [hx, div_lt_iff₀ hdenPos, show (a : ℤ) - b + 1 = ((a + 1 : ℕ) : ℤ) - (b : ℕ) by push_cast; ring,
      zpow_sub₀ (by norm_num), zpow_natCast, zpow_natCast, div_mul_eq_mul_div, lt_div_iff₀ (by positivity)]
    calc (num : ℚ) * 2 ^ b < 2 ^ (a + 1) * 2 ^ b := by gcongr
      _ ≤ 2 ^ (a + 1) * den := by gcongr
  have hhidden : f.hiddenBit * (2 : ℚ) ^ guess = 2 ^ ((a : ℤ) - b - 1) := by
    have hsplit : (2 : ℚ) ^ ((a : ℤ) - b) = 2 * 2 ^ ((a : ℤ) - b - 1) := by
      rw [← zpow_one_add₀ (by norm_num)]
      congr 1
      ring
    have hdouble : 2 * f.hiddenBit * (2 : ℚ) ^ guess = 2 ^ ((a : ℤ) - b) := by
      rw [hfull, ← zpow_natCast, ← zpow_add₀ (by norm_num), hguess]
      congr 1
      ring
    linarith
  have hnext : (2 : ℚ) ^ (guess + 1) = 2 * 2 ^ guess := by rw [zpow_add_one₀ (by norm_num), mul_comm]
  have hfits : (scaled num den guess).1 / (scaled num den guess).2 < f.hiddenBit * 2 ↔ x < 2 * f.hiddenBit * 2 ^ guess := by
    have hscaledPos : (0 : ℚ) < (scaled num den guess).2 := Nat.cast_pos.2 (scaled_pos hden guess)
    rw [Nat.div_lt_iff_lt_mul (scaled_pos hden guess), ← Nat.cast_lt (α := ℚ), Nat.cast_mul, ← div_lt_iff₀ hscaledPos, scaled_div,
      zpow_neg, ← div_eq_mul_inv, div_lt_iff₀ (by positivity), Nat.cast_mul, Nat.cast_ofNat, mul_comm (f.hiddenBit : ℚ) 2]
  have hunit : f.unitExponent num den =
      max (if (scaled num den guess).1 / (scaled num den guess).2 < f.hiddenBit * 2 then guess else guess + 1)
        f.leastExponent := rfl
  simp only [hfits] at hunit
  have hmono {e : ℤ} (hx : x < 2 * f.hiddenBit * 2 ^ e) : x < 2 * f.hiddenBit * 2 ^ max e f.leastExponent :=
    hx.trans_le (mul_le_mul_of_nonneg_left (zpow_le_zpow_right₀ (by norm_num) (le_max_left ..)) (by positivity))
  rw [hunit]
  split
  · next hlt =>
    refine ⟨le_max_right .., hmono hlt, ?_⟩
    rcases le_total guess f.leastExponent with hle | hle
    · exact .inl (max_eq_right hle)
    · rw [max_eq_left hle, hhidden]
      exact .inr hlow.le
  · next hge =>
    have hlt : x < 2 * f.hiddenBit * 2 ^ (guess + 1) := by
      have hsplit : (2 : ℚ) ^ ((a : ℤ) - b + 1) = 4 * 2 ^ ((a : ℤ) - b - 1) := by
        rw [show (a : ℤ) - b + 1 = 2 + ((a : ℤ) - b - 1) by ring, zpow_add₀ (by norm_num)]
        norm_num
      rw [hnext]
      linarith
    refine ⟨le_max_right .., hmono hlt, ?_⟩
    rcases le_total (guess + 1) f.leastExponent with hle | hle
    · exact .inl (max_eq_right hle)
    · rw [max_eq_left hle, hnext]
      exact .inr (by linarith)

theorem unitExponent_eq (hp : 2 ≤ f.precision) (hnum : 0 < num) (hden : 0 < den) (h : f.IsUnit (num / den) e) :
    f.unitExponent num den = e :=
  le_antisymm ((isUnit_unitExponent hp hnum hden).le h) (h.le (isUnit_unitExponent hp hnum hden))

theorem nearestBits?_eq (hp : 2 ≤ f.precision) (hnum : 0 < num) (hden : 0 < den) (hunit : f.IsUnit (num / den) e)
    (hround : Rounds (num / den * 2 ^ (-e)) m) :
    (m = 2 * f.hiddenBit → (e + 1 - f.leastExponent + 1).toNat < f.topField →
      f.nearestBits? num den = some (f.bitsOf f.hiddenBit (e + 1))) ∧
    (m < 2 * f.hiddenBit → (f.hiddenBit ≤ m → (e - f.leastExponent + 1).toNat < f.topField) →
      f.nearestBits? num den = some (f.bitsOf m e)) := by
  rw [← scaled_div] at hround
  have hdiv := roundDiv_eq (scaled_pos hden e) hround
  simp only [nearestBits?, unitExponent_eq hp hnum hden hunit, hdiv]
  constructor
  · rintro rfl hfield
    rw [if_pos rfl]
    simp [bitsOf, Nat.not_le.2 hfield]
  · intro hm hfield
    rw [if_neg hm.ne]
    by_cases hlt : m < f.hiddenBit
    · simp [bitsOf, hlt]
    · simp [bitsOf, hlt, Nat.not_le.2 (hfield (Nat.le_of_not_lt hlt))]

end Format

namespace Interval

/-- The interval holds `x`, given in its units. -/
def Spans (i : Interval) (x : ℚ) : Prop :=
  if i.closed then (i.lo : ℚ) ≤ x ∧ x ≤ i.hi else (i.lo : ℚ) < x ∧ x < i.hi

theorem contains_iff {i : Interval} (hden : 0 < den) : i.contains num den = true ↔ i.Spans (num / den) := by
  have hpos : (0 : ℚ) < den := Nat.cast_pos.2 hden
  unfold contains Spans
  split
  · rw [Bool.and_eq_true, decide_eq_true_eq, decide_eq_true_eq, le_div_iff₀ hpos, div_le_iff₀ hpos]
    norm_cast
  · rw [Bool.and_eq_true, decide_eq_true_eq, decide_eq_true_eq, lt_div_iff₀ hpos, div_lt_iff₀ hpos]
    norm_cast

theorem Spans.bounds {i : Interval} (h : i.Spans x) : (i.lo : ℚ) ≤ x ∧ x ≤ i.hi := by
  unfold Spans at h
  split at h
  · exact h
  · exact ⟨h.1.le, h.2.le⟩

variable {f : Format} {m : ℕ} {e : ℤ} {x : ℚ}

theorem rounds_of_spans (hm : 0 < m) (h : (around f m e).Spans (4 * x)) : Rounds x m := by
  have hlo : 4 * m - 2 ≤ (around f m e).lo := by
    dsimp only [around]
    split <;> omega
  have hlow : (4 : ℚ) * m - 2 ≤ (around f m e).lo := by
    have hcast : ((4 * m - 2 : ℕ) : ℚ) ≤ (around f m e).lo := Nat.cast_le.2 hlo
    rw [Nat.cast_sub (by omega)] at hcast
    exact_mod_cast hcast
  have hhigh : ((around f m e).hi : ℚ) = 4 * m + 2 := by simp [around]
  unfold Spans at h
  unfold Rounds
  by_cases heven : m % 2 = 0
  · rw [if_pos heven]
    rw [if_pos (by simp [around, heven])] at h
    exact ⟨by linarith, by linarith⟩
  · rw [if_neg heven]
    rw [if_neg (by simp [around, heven])] at h
    exact ⟨by linarith, by linarith⟩

end Interval

theorem Format.nearestBits?_of_spans (hp : 2 ≤ f.precision) (hm : 0 < m) (h : f.Holds m e) (hnum : 0 < num)
    (hden : 0 < den) (hspans : (Interval.around f m e).Spans (num / den * 2 ^ (2 - e))) :
    f.nearestBits? num den = some (f.bitsOf m e) := by
  obtain ⟨x, hx⟩ : ∃ x : ℚ, x = num / den * 2 ^ (-e) := ⟨_, rfl⟩
  have hvalue : (num / den : ℚ) = x * 2 ^ e := by
    rw [hx, mul_assoc, ← zpow_add₀ (by norm_num), neg_add_cancel, zpow_zero, mul_one]
  have hquarter : (num / den * 2 ^ (2 - e) : ℚ) = 4 * x := by
    rw [hx, sub_eq_add_neg, zpow_add₀ (by norm_num)]
    ring
  have hpow : (0 : ℚ) < 2 ^ e := by positivity
  rw [hquarter] at hspans
  have hround := Interval.rounds_of_spans hm hspans
  have hfits : (m : ℚ) + 1 ≤ 2 * f.hiddenBit := mod_cast h.fits
  by_cases hunit : e = f.leastExponent ∨ (f.hiddenBit : ℚ) ≤ x
  · refine (nearestBits?_eq hp hnum hden ⟨h.least, ?_, ?_⟩ (hx ▸ hround)).2 h.fits h.finite
    · rw [hvalue]
      exact mul_lt_mul_of_pos_right (by linarith [hround.bounds.2]) hpow
    · rw [hvalue]
      exact hunit.imp_right fun hle ↦ mul_le_mul_of_nonneg_right hle hpow.le
  · -- the quotient lies below a power of two, where the unit is half as large
    rw [not_or, not_le] at hunit
    have hleast : f.leastExponent < e := lt_of_le_of_ne h.least (Ne.symm hunit.1)
    have hm' : m = f.hiddenBit := by
      have hfull := h.full.resolve_left hunit.1
      have hlt : (m : ℚ) < f.hiddenBit + 1 := by linarith [hround.bounds.1, hunit.2]
      exact le_antisymm (Nat.lt_succ_iff.1 (mod_cast hlt)) hfull
    have hlow : (f.hiddenBit : ℚ) - 1 / 4 ≤ x := by
      have hlo : (Interval.around f m e).lo = 4 * f.hiddenBit - 1 := by simp [Interval.around, hm', hleast]
      have hpos : 0 < f.hiddenBit := hiddenBit_pos
      have hbound := hspans.bounds.1
      rw [hlo, Nat.cast_sub (by omega)] at hbound
      push_cast at hbound
      linarith
    have hhidden : (1 : ℚ) ≤ f.hiddenBit := mod_cast hiddenBit_pos (f := f)
    have hhalf : (2 : ℚ) ^ e = 2 * 2 ^ (e - 1) := by
      rw [← zpow_one_add₀ (by norm_num)]
      congr 1
      ring
    have hhalfPos : (0 : ℚ) < 2 ^ (e - 1) := by positivity
    have hdouble : (num / den * 2 ^ (-(e - 1)) : ℚ) = 2 * x := by
      rw [hx, neg_sub, sub_eq_add_neg, zpow_add₀ (by norm_num)]
      ring
    have hunit' : f.IsUnit (num / den) (e - 1) := by
      refine ⟨by omega, ?_, .inr ?_⟩ <;> rw [hvalue, hhalf] <;> nlinarith
    have hround' : Rounds (num / den * 2 ^ (-(e - 1))) (2 * f.hiddenBit) := by
      rw [hdouble, Rounds, if_pos (Nat.mul_mod_right 2 _)]
      push_cast
      exact ⟨by linarith, by linarith⟩
    have hbits := (nearestBits?_eq hp hnum hden hunit' hround').1 rfl
    rw [sub_add_cancel, ← hm'] at hbits
    exact hbits (h.finite hm'.ge)

theorem pow_ten_le {a b : ℕ} (h : 10 * a ≤ 3 * b) : 10 ^ a ≤ 2 ^ b := by
  refine (Nat.pow_le_pow_iff_left (n := 10) (by decide)).1 ?_
  calc (10 ^ a) ^ 10 = 10 ^ (10 * a) := by rw [← pow_mul, mul_comm]
    _ ≤ 10 ^ (3 * b) := Nat.pow_le_pow_right (by decide) h
    _ = (10 ^ 3) ^ b := pow_mul ..
    _ ≤ (2 ^ 10) ^ b := Nat.pow_le_pow_left (by decide) b
    _ = (2 ^ b) ^ 10 := by rw [← pow_mul, ← pow_mul, mul_comm]

theorem pow_two_le {a b : ℕ} (h : 10 * b ≤ 33 * a) : 2 ^ b ≤ 10 ^ a := by
  refine (Nat.pow_le_pow_iff_left (n := 33) (by decide)).1 ?_
  calc (2 ^ b) ^ 33 = (2 ^ 33) ^ b := by rw [← pow_mul, ← pow_mul, mul_comm]
    _ ≤ (10 ^ 10) ^ b := Nat.pow_le_pow_left (by decide) b
    _ = 10 ^ (10 * b) := (pow_mul ..).symm
    _ ≤ 10 ^ (33 * a) := Nat.pow_le_pow_right (by decide) h
    _ = (10 ^ a) ^ 33 := by rw [← pow_mul, mul_comm]

namespace Interval

variable {i : Interval} {e k : ℤ} {d : ℕ}

theorem grid_div (d : ℕ) (e k : ℤ) :
    ((d * (Nat.pow 10 k.toNat * Nat.pow 2 (2 - e).toNat) : ℕ) : ℚ) /
      (Nat.pow 10 (-k).toNat * Nat.pow 2 (e - 2).toNat : ℕ) = d * 10 ^ k * 2 ^ (2 - e) := by
  have hten := pow_toNat_div (b := 10) (by norm_num) k
  have htwo := pow_toNat_div (b := 2) (by norm_num) (2 - e)
  rw [neg_sub] at htwo
  simp only [Nat.pow_eq, Nat.cast_mul, Nat.cast_pow, Nat.cast_ofNat]
  rw [← hten, ← htwo]
  field_simp

theorem spans_of_gridPoint? (h : i.gridPoint? e k = some d) : i.Spans (d * 10 ^ k * 2 ^ (2 - e)) := by
  have hdown : 0 < Nat.pow 10 (-k).toNat * Nat.pow 2 (e - 2).toNat :=
    Nat.mul_pos (Nat.pow_pos (by decide)) (Nat.pow_pos (by decide))
  rw [← grid_div, ← contains_iff hdown]
  simp only [gridPoint?] at h
  split at h
  · cases h
  · next hbelow _ =>
    cases h
    exact hbelow
  · next _ habove =>
    cases h
    exact habove
  · next hbelow habove =>
    split at h <;> cases h
    · exact hbelow
    · exact habove

/-- Once a step of the grid is no longer than a unit, there is a point of it in the interval. -/
theorem exists_gridPoint? (hp : 2 ≤ f.precision) (hm : 0 < m)
    (hstep : 10 ^ k.toNat * 2 ^ (2 - e).toNat ≤ 10 ^ (-k).toNat * 2 ^ (e - 2).toNat) :
    ∃ d, (around f m e).gridPoint? e k = some d := by
  have hup : 0 < 10 ^ k.toNat * 2 ^ (2 - e).toNat := by positivity
  simp only [gridPoint?, Nat.pow_eq]
  set up := 10 ^ k.toNat * 2 ^ (2 - e).toNat
  set down := 10 ^ (-k).toNat * 2 ^ (e - 2).toNat
  set d := (around f m e).value * down / up
  have hbelow : (around f m e).contains (d * up) down = true := by
    have hle : d * up ≤ 4 * m * down := Nat.div_mul_le_self ..
    have hlt : 4 * m * down < d * up + up := Nat.lt_div_mul_add hup
    have hhi : d * up ≤ (4 * m + 2) * down := by nlinarith
    obtain ⟨n, rfl⟩ := Nat.exists_eq_add_of_le' hm
    unfold contains
    split
    · have hlo : (around f (n + 1) e).lo ≤ 4 * n + 3 := by
        dsimp only [around]
        split <;> omega
      simp only [Bool.and_eq_true, decide_eq_true_eq]
      refine ⟨?_, hhi⟩
      calc (around f (n + 1) e).lo * down ≤ (4 * n + 3) * down := Nat.mul_le_mul_right _ hlo
        _ ≤ d * up := by nlinarith
    · next hopen =>
      -- the mantissa is odd, so it is no power of two
      have hlo : (around f (n + 1) e).lo = 4 * n + 2 := by
        refine if_neg fun hbinade ↦ hopen ?_
        simp [around, hbinade.1, Format.hiddenBit_even hp]
      simp only [Bool.and_eq_true, decide_eq_true_eq, hlo]
      exact ⟨by nlinarith, by show d * up < (4 * (n + 1) + 2) * down; nlinarith⟩
  rw [hbelow]
  cases (around f m e).contains ((d + 1) * up) down with
  | false => exact ⟨_, rfl⟩
  | true => exact ⟨_, rfl⟩

/-- A search that comes to a grid with a point in the interval ends with such a point. -/
theorem gridPoint?_search {tries j : ℕ} (hj : j < tries) (h : ∃ d, i.gridPoint? e (k - j) = some d) :
    i.gridPoint? e (i.search e tries k).exponent = some (i.search e tries k).digits ∧
      k - tries < (i.search e tries k).exponent := by
  induction tries generalizing j k with
  | zero => omega
  | succ tries ih =>
    rw [search]
    cases hgrid : i.gridPoint? e k with
    | some d => exact ⟨hgrid, by push_cast; omega⟩
    | none =>
      cases j with
      | zero => simp [hgrid] at h
      | succ j =>
        have hrest := ih (k := k - 1) (j := j) (by omega) (by
          obtain ⟨d, hd⟩ := h
          refine ⟨d, ?_⟩
          rw [← hd]
          congr 1
          push_cast
          ring)
        exact ⟨hrest.1, by push_cast; omega⟩

end Interval

/-- The exponents of the two formats in use, and more. -/
structure Format.IsModest (f : Format) : Prop where
  precise : 2 ≤ f.precision
  short : f.precision ≤ 53
  small : -1100 ≤ f.leastExponent
  large : f.leastExponent + f.topField ≤ 1000

theorem Format.Holds.exponent_le (hf : f.IsModest) (h : f.Holds m e) : e ≤ 1000 := by
  have hlarge := hf.large
  rcases h.full with heq | hfull
  · omega
  · have hfinite := h.finite hfull
    omega

theorem shortest_spans (hf : f.IsModest) (hm : 0 < m) (h : f.Holds m e) :
    (Interval.around f m e).Spans ((shortest f m e).digits * 10 ^ (shortest f m e).exponent * 2 ^ (2 - e)) ∧
      -400 ≤ (shortest f m e).exponent := by
  have hlog : Nat.log2 m < f.precision := by
    rw [Nat.log2_lt hm.ne']
    exact Format.two_mul_hiddenBit hf.precise ▸ h.fits
  have hleast := h.least
  have hsmall := hf.small
  have hshort := hf.short
  have hhigh := h.exponent_le hf
  simp only [shortest, Int.fdiv_eq_ediv_of_nonneg _ (show (0 : ℤ) ≤ 100000 by norm_num)]
  set top : ℤ := ((Nat.log2 m : ℤ) + 1 + e) * 30103 / 100000 + 2 with htop
  have hgrid : ∃ d, (Interval.around f m e).gridPoint? e (top - (23 : ℕ)) = some d := by
    refine Interval.exists_gridPoint? hf.precise hm ?_
    set k : ℤ := top - (23 : ℕ) with hk
    rcases le_or_gt 0 k with hle | hlt
    · have hten := pow_ten_le (a := k.toNat) (b := (e - 2).toNat) (by omega)
      have hone : (2 - e).toNat = 0 := by omega
      have hone' : (-k).toNat = 0 := by omega
      simpa [hone, hone'] using hten
    · have htwo := pow_two_le (a := (-k).toNat) (b := (2 - e).toNat) (by omega)
      have hone : k.toNat = 0 := by omega
      rw [hone, pow_zero, one_mul]
      exact htwo.trans (Nat.le_mul_of_pos_right _ (by positivity))
  obtain ⟨hpoint, hexponent⟩ := Interval.gridPoint?_search (show 23 < 24 by decide) hgrid
  exact ⟨Interval.spans_of_gridPoint? hpoint, by omega⟩

theorem isModest_double : Format.double.IsModest := by constructor <;> decide

theorem isModest_single : Format.single.IsModest := by constructor <;> decide

end CommandPack.Decimal
