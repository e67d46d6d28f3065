import Mathlib
import CommandPack.Machine.Data

/-!
Whole numbers as floating-point numbers. Multiplying by one changes nothing, and a 32-bit number that became
a floating-point number is read off again unchanged.
-/

namespace CommandPack.Decimal

open Float.Model Float.Model.UnpackedFloat

variable {m : Nat} {e : Int}

/-- A mantissa and an exponent that a format keeps as they are. -/
def Fits (spec : Float.Model.Format) (m : Nat) (e : Int) : Prop :=
  0 < m ∧ e = spec.targetExponent (totalExponent m e)

theorem shiftRight_exact (m k : Nat) :
    ((⟨m * 2 ^ k, false, false⟩ : ExtendedMantissa) >>> k) = ⟨m, false, false⟩ := by
  change Nat.repeat ExtendedMantissa.shiftRightOne k _ = _
  induction k generalizing m with
  | zero => simp [Nat.repeat]
  | succ k ih =>
    have hodd : m * 2 ^ (k + 1) = (m * 2) * 2 ^ k := by ring
    rw [Nat.repeat, hodd, ih]
    simp [ExtendedMantissa.shiftRightOne]

theorem log2_mul_two_pow (hm : 0 < m) (k : Nat) : (m * 2 ^ k).log2 = m.log2 + k := by
  rw [Nat.log2_eq_iff (by positivity)]
  obtain ⟨hlow, hhigh⟩ := (Nat.log2_eq_iff hm.ne').1 rfl
  constructor
  · rw [pow_add]
    exact Nat.mul_le_mul_right _ hlow
  · calc m * 2 ^ k < 2 ^ (m.log2 + 1) * 2 ^ k := Nat.mul_lt_mul_of_pos_right hhigh (by positivity)
      _ = 2 ^ (m.log2 + k + 1) := by rw [← pow_add]; congr 1; omega

theorem totalExponent_mul_two_pow (hm : 0 < m) (k : Nat) (e : Int) :
    totalExponent (m * 2 ^ k) (e - k) = totalExponent m e := by
  simp only [totalExponent, log2_mul_two_pow hm]
  push_cast
  ring

theorem roundWithAccuracy_of_fits {spec : Float.Model.Format} (h : Fits spec m e) (s : Sign) (k : Nat) :
    roundWithAccuracy spec s (m * 2 ^ k) (e - k) .exact = .finite s m e h.1 := by
  have hshift (k : Nat) : shiftToTargetExponent spec (m * 2 ^ k) (e - k) .exact = (⟨m, false, false⟩, e) := by
    have hk : (spec.targetExponent (totalExponent (m * 2 ^ k) (e - k)) - (e - k)).toNat = k := by
      rw [totalExponent_mul_two_pow h.1, ← h.2]
      omega
    rw [shiftToTargetExponent, shiftToExponent, hk]
    simp only [ExtendedMantissa.ofMantissaAndAccuracy, shiftRight_exact]
    simp
  have hagain : shiftToTargetExponent spec m e .exact = (⟨m, false, false⟩, e) := by simpa using hshift 0
  simp only [roundWithAccuracy, hshift, ExtendedMantissa.roundedMantissa, ExtendedMantissa.accuracy,
    Accuracy.roundToNearestEven, hagain, h.1.ne', dite_false]

theorem unpack_one : (1 : Float).toModel.unpack = .finite .positive (1 * 2 ^ 52) (-52) (by decide) := by
  rfl

theorem fits_of_unpack {b : BitVec Format.binary64.numBits} {s : Sign} {hm : 0 < m}
    (h : UnpackedFloat.unpack .binary64 b = .finite s m e hm) : Fits .binary64 m e := by
  refine ⟨hm, ?_⟩
  have hfield : (unpackExponent b).toNat < 2 ^ 11 := (unpackExponent b).isLt
  have hfraction : (unpackMantissa b).toNat < 2 ^ 52 := (unpackMantissa b).isLt
  have hbias : Format.binary64.exponentBias = 1023 := by decide
  have hbits : Format.binary64.mantissaBits = 53 := by decide
  have hleast : Format.binary64.minExponent = -1074 := by decide
  simp only [UnpackedFloat.unpack] at h
  rw [Format.targetExponent, totalExponent, hbits, hleast]
  split at h
  · split at h <;> cases h
  · split at h
    · rename_i hzero
      split at h
      · cases h
      · cases h
        have hlog : (unpackMantissa b).toNat.log2 < 52 := (Nat.log2_lt (by omega)).2 hfraction
        rw [hzero, hbias]
        simp
        omega
    · rename_i hzero
      cases h
      have hpos : 0 < (unpackExponent b).toNat := by
        rw [Nat.pos_iff_ne_zero]
        intro h
        exact hzero (BitVec.eq_of_toNat_eq h)
      have hm : (1#1 ++ unpackMantissa b).toNat = 2 ^ 52 + (unpackMantissa b).toNat := by
        rw [BitVec.toNat_append]
        have hor := Nat.two_pow_add_eq_or_of_lt hfraction 1
        simpa using hor.symm
      have hlog : (2 ^ 52 + (unpackMantissa b).toNat).log2 = 52 := by
        rw [Nat.log2_eq_iff (by omega)]
        omega
      rw [hm, hlog, hbias]
      simp
      omega

theorem sign_mul_positive (s : Sign) : s * .positive = s := by
  cases s <;> rfl

theorem pack_unpack (x : Float.Model) : Float.Model.pack x.unpack = x := by
  obtain ⟨bits, hvalid⟩ := x
  have hbits : UnpackedFloat.pack .binary64 (UnpackedFloat.unpack .binary64 bits.toBitVec) = bits.toBitVec :=
    pack_unpack_of_valid hvalid
  simp only [Float.Model.pack, Float.Model.unpack, Float.Model.mk.injEq]
  rw [hbits]

theorem mul_one_eq (x : Float) : x * 1 = x := by
  have hmul : UnpackedFloat.mul .binary64 x.toModel.unpack (1 : Float).toModel.unpack = x.toModel.unpack := by
    rw [unpack_one]
    cases h : x.toModel.unpack with
    | notANumber => rfl
    | infinity s | zero s => simp [UnpackedFloat.mul, sign_mul_positive]
    | finite s m e hm =>
      have hround := roundWithAccuracy_of_fits (fits_of_unpack h) s 52
      simpa [UnpackedFloat.mul, sign_mul_positive, sub_eq_add_neg] using hround
  change Float.ofModel (Float.Model.pack (UnpackedFloat.mul .binary64 x.toModel.unpack (1 : Float).toModel.unpack)) = x
  rw [hmul, pack_unpack]

theorem unpack_pack {s : Sign} (hm : 0 < m) (hlog : m.log2 = 52) (hlow : -1074 ≤ e) (hhigh : e ≤ 900) :
    UnpackedFloat.unpack .binary64 (UnpackedFloat.pack .binary64 (.finite s m e hm)) = .finite s m e hm := by
  have hbias : Format.binary64.exponentBias = 1023 := by decide
  have hbits : Format.binary64.mantissaBits = 53 := by decide
  obtain ⟨field, hfield⟩ : ∃ field : Nat, e = field - 1075 ∧ 0 < field ∧ field < 2047 :=
    ⟨(e + 1075).toNat, by omega⟩
  have hpacked : UnpackedFloat.pack .binary64 (.finite s m e hm) =
      packComponents .binary64 s (BitVec.ofNat 11 field) (BitVec.ofNat 52 m) := by
    have hexponent : (e + (Format.binary64.exponentBias : Int) + (Format.binary64.mantissaBitsWithoutImplicit : Int)).toNat
        = field := by
      rw [hbias]
      simp
      omega
    simp only [UnpackedFloat.pack, hexponent, hlog, hbits]
    rw [if_neg (by simp; omega), if_pos (by simp)]
  have hne : BitVec.ofNat 11 field ≠ -1#11 ∧ BitVec.ofNat 11 field ≠ 0#11 := by
    constructor <;>
    · intro h
      have h := congrArg BitVec.toNat h
      simp at h
      omega
  have hmantissa : (1#1 ++ BitVec.ofNat 52 m).toNat = m := by
    obtain ⟨hlow, hhigh⟩ := (Nat.log2_eq_iff hm.ne').1 hlog
    have hor := Nat.two_pow_add_eq_or_of_lt (a := 1) (Nat.mod_lt m (by decide : 0 < 2 ^ 52))
    rw [BitVec.toNat_append, BitVec.toNat_ofNat]
    have hdiv : 2 ^ 52 + m % 2 ^ 52 = m := by omega
    rw [Nat.mul_one, hdiv] at hor
    simpa using hor.symm
  simp only [hpacked, UnpackedFloat.unpack, unpackExponent_packComponents, unpackMantissa_packComponents,
    unpackSign_packComponents, Sign.ofBitVec_toBitVec, hne.1, hne.2, if_false, hmantissa]
  congr 1
  rw [hbias, hfield.1]
  simp
  omega

def isNegative : Sign → Bool
  | .negative => true
  | .positive => false

/-- The class of an unpacked number. -/
def classOf : UnpackedFloat → Class
  | .notANumber => .nan
  | .infinity s => .infinite (isNegative s)
  | .zero s => .finite (isNegative s) 0 (-1074)
  | .finite s m e _ => .finite (isNegative s) m e

theorem ofBits_eq_classOf (b : BitVec Format.binary64.numBits) :
    Class.ofBits .double b.toNat = classOf (UnpackedFloat.unpack .binary64 b) := by
  have hfield : (unpackExponent b).toNat = b.toNat / 2 ^ 52 % 2 ^ 11 := by
    rw [unpackExponent_def, BitVec.extractLsb'_toNat, Nat.shiftRight_eq_div_pow]
  have hfraction : (unpackMantissa b).toNat = b.toNat % 2 ^ 52 := by
    rw [unpackMantissa_def, BitVec.extractLsb'_toNat, Nat.shiftRight_eq_div_pow]
    simp
  have hsign : (unpackSign b).toNat = b.toNat / (2 ^ 52 * 2 ^ 11) % 2 := by
    rw [unpackSign_def, BitVec.extractLsb'_toNat, Nat.shiftRight_eq_div_pow]
    rfl
  have hnegative : isNegative (Sign.ofBitVec (unpackSign b)) = (b.toNat / (2 ^ 52 * 2 ^ 11) % 2 == 1) := by
    rw [← hsign]
    generalize unpackSign b = sign
    revert sign
    decide
  have htop : unpackExponent b = -1#11 ↔ b.toNat / 2 ^ 52 % 2 ^ 11 = 2047 := by
    rw [← hfield, ← BitVec.toNat_inj]
    simp
  have hlow : unpackExponent b = 0#11 ↔ b.toNat / 2 ^ 52 % 2 ^ 11 = 0 := by
    rw [← hfield, ← BitVec.toNat_inj]
    simp
  have hzero : unpackMantissa b = 0#52 ↔ b.toNat % 2 ^ 52 = 0 := by
    rw [← hfraction, ← BitVec.toNat_inj]
    simp
  have hfull : (1#1 ++ unpackMantissa b).toNat = 2 ^ 52 + b.toNat % 2 ^ 52 := by
    have hor := Nat.two_pow_add_eq_or_of_lt (a := 1) (unpackMantissa b).isLt
    rw [BitVec.toNat_append, ← hfraction]
    simpa using hor.symm
  have hbias : Format.binary64.exponentBias = 1023 := by decide
  have hhidden : Format.double.hiddenBit = 2 ^ 52 := by decide
  have htopField : Format.double.topField = 2047 := by decide
  have hleast : Format.double.leastExponent = -1074 := by decide
  have hsize : Nat.pow 2 Format.double.exponentBits = 2 ^ 11 := by decide
  simp only [Class.ofBits, UnpackedFloat.unpack, hhidden, htopField, hleast, hsize, htop, hlow, hzero,
    hfraction, hfull, hfield, ← hnegative]
  split
  · split <;> rfl
  · split
    · split
      · rename_i hnone
        rw [hnone]
        rfl
      · rename_i hfirst _
        simp only [classOf, hfirst, hbias]
        rfl
    · simp only [classOf, hbias]
      congr 1
      push_cast
      ring

theorem ofNat_eq_toFloat {n : Nat} (hlt : n < 2 ^ 53) : Float.ofNat n = n.toUInt64.toFloat := by
  have hten : Float.ofNat n = n.toUInt64.toFloat * 1 := by
    change Float.ofScientific n false 0 = _
    rw [Float.ofScientific, dif_pos ⟨hlt, by decide⟩]
    rfl
  rw [hten, mul_one_eq]

theorem unpack_ofNat {n : Nat} (hn : 0 < n) (hlt : n < 2 ^ 53) :
    ∃ k : Nat, ∃ h, (Float.ofNat n).toModel.unpack = .finite .positive (n * 2 ^ k) (-(k : Int)) h ∧
      (n * 2 ^ k).log2 = 52 ∧ k ≤ 52 := by
  have hlog : n.log2 < 53 := (Nat.log2_lt hn.ne').2 hlt
  have hsize : n.toUInt64.toNat = n := by
    simp
    omega
  have hpos : 0 < n * 2 ^ (52 - n.log2) := by positivity
  have hfull : (n * 2 ^ (52 - n.log2)).log2 = 52 := by
    rw [log2_mul_two_pow hn]
    omega
  have hbits : Format.binary64.mantissaBits = 53 := by decide
  have hleast : Format.binary64.minExponent = -1074 := by decide
  have hfits : Fits .binary64 (n * 2 ^ (52 - n.log2)) (-((52 - n.log2 : Nat) : Int)) := by
    refine ⟨hpos, ?_⟩
    rw [Format.targetExponent, totalExponent, hfull, hbits, hleast]
    omega
  have hround : UnpackedFloat.ofUInt64 .binary64 n.toUInt64 =
      .finite .positive (n * 2 ^ (52 - n.log2)) (-((52 - n.log2 : Nat) : Int)) hpos := by
    have hcompare : compare (n : Int) 0 = .gt := by
      rw [compare_gt_iff_gt]
      exact_mod_cast hn
    have htarget : (0 - Format.binary64.targetExponent (totalExponent n 0)).toNat = 52 - n.log2 := by
      rw [Format.targetExponent, totalExponent, hbits, hleast]
      omega
    rw [UnpackedFloat.ofUInt64, hsize, UnpackedFloat.ofNat, UnpackedFloat.ofInt, UnpackedFloat.normalize]
    simp only [hcompare, UnpackedFloat.round, decreaseExponent, Int.toNat_natCast, htarget, Nat.shiftLeft_eq]
    have hexact := roundWithAccuracy_of_fits hfits .positive 0
    simpa using hexact
  refine ⟨52 - n.log2, hpos, ?_, hfull, by omega⟩
  rw [ofNat_eq_toFloat hlt]
  have hunpack := unpack_pack (s := .positive) hpos hfull (e := -((52 - n.log2 : Nat) : Int)) (by omega) (by omega)
  rw [← hround] at hunpack
  rw [← hround]
  exact hunpack

theorem whole_mul_two_pow (down negative : Bool) (n k : Nat) :
    whole down negative (n * 2 ^ k) (-(k : Int)) = if negative then -(n : Int) else n := by
  have hpos : 0 < 2 ^ k := by positivity
  have hup : (n * 2 ^ k + 2 ^ k - 1) / 2 ^ k = n := by
    rw [Nat.add_sub_assoc hpos, Nat.mul_comm, Nat.mul_add_div hpos, Nat.div_eq_of_lt (by omega), Nat.add_zero]
  simp [whole, hup, Nat.mul_div_cancel _ hpos]

theorem ofBits_ofNat {n : Nat} (hn : 0 < n) (hlt : n < 2 ^ 53) : ∃ k : Nat,
    Class.ofBits .double (Float.ofNat n).toBits.toNat = .finite false (n * 2 ^ k) (-(k : Int)) ∧
      Class.ofBits .double (Float.ofNat n).neg.toBits.toNat = .finite true (n * 2 ^ k) (-(k : Int)) := by
  obtain ⟨k, hpos, hunpack, hlog, hk⟩ := unpack_ofNat hn hlt
  have hnegated : (Float.ofNat n).neg.toModel.unpack = .finite .negative (n * 2 ^ k) (-(k : Int)) hpos := by
    change UnpackedFloat.unpack .binary64 (UnpackedFloat.pack .binary64 (Float.ofNat n).toModel.unpack.neg) = _
    rw [hunpack]
    exact unpack_pack hpos hlog (by omega) (by omega)
  refine ⟨k, ?_, ?_⟩
  · have hclass := ofBits_eq_classOf (Float.ofNat n).toModel.toBits.toBitVec
    rw [show UnpackedFloat.unpack .binary64 _ = _ from hunpack] at hclass
    exact hclass
  · have hclass := ofBits_eq_classOf (Float.ofNat n).neg.toModel.toBits.toBitVec
    rw [show UnpackedFloat.unpack .binary64 _ = _ from hnegated] at hclass
    exact hclass

theorem saturate_of_finite {down negative : Bool} {x : Float} {n : Int32}
    (hx : Class.ofBits .double x.toBits.toNat = .finite negative m e) (hn : whole down negative m e = n.toInt) :
    Machine.saturate down x = n := by
  have hlow : -2147483648 ≤ n.toInt := n.le_toInt
  have hhigh : n.toInt < 2147483648 := n.toInt_lt
  have hclamp : max (-2147483648) (min n.toInt 2147483647) = n.toInt := by omega
  simp only [Machine.saturate, hx, hn, hclamp, Int32.ofInt_toInt]

theorem saturate_ofInt (down : Bool) (n : Int32) : Machine.saturate down (Float.ofInt n.toInt) = n := by
  have hlow : -2147483648 ≤ n.toInt := n.le_toInt
  have hhigh : n.toInt < 2147483648 := n.toInt_lt
  cases h : n.toInt with
  | ofNat m =>
    have hm : (m : Int) < 2147483648 := by rwa [h] at hhigh
    rcases Nat.eq_zero_or_pos m with rfl | hpos
    · rw [show n = 0 from Int32.toInt_inj.1 h]
      cases down <;> decide +kernel
    · obtain ⟨k, hclass, -⟩ := ofBits_ofNat hpos (by omega)
      exact saturate_of_finite hclass (by rw [whole_mul_two_pow, h]; rfl)
  | negSucc m =>
    have hm : (m : Int) < 2147483648 := by omega
    obtain ⟨k, -, hclass⟩ := ofBits_ofNat (Nat.succ_pos m) (by omega)
    exact saturate_of_finite hclass (by rw [whole_mul_two_pow, h]; rfl)

theorem typed?_int (n : Int32) : Machine.typed? "int" (Float.ofInt n.toInt) = some (.int n) := by
  simp only [Machine.typed?, saturate_ofInt]

theorem measure_int (n : Int32) : Machine.measure 1 (.int n) = n := by
  simp only [Machine.measure, Tag.number?, mul_one_eq, saturate_ofInt]

theorem readDouble?_one : readDouble? "1" = some 1 := by
  have hbits : readBits? .double "1" = some 0x3FF0000000000000 := by decide +kernel
  rw [readDouble?, hbits]
  rfl

end CommandPack.Decimal
