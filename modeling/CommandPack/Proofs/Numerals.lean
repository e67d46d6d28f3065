import Mathlib
import CommandPack.Decimal.Layout
import CommandPack.Decimal.Numeral
import CommandPack.Proofs.Quoting
import CommandPack.Proofs.Rounding

/-!
Numbers as text. Whole numbers and floating-point numbers read back from the text they are written as.
-/

namespace CommandPack.Decimal

open Text

variable {cs : List Char} {c : Char} {f : Format} {fraction : ℕ}

theorem hexValue?_of_isDigit (h : c.isDigit = true) : hexValue? c = some (c.toNat - 48) := by
  simp only [Char.isDigit, Bool.and_eq_true, decide_eq_true_eq] at h
  exact if_pos h

theorem toNat_sub_lt_of_isDigit (h : c.isDigit = true) : c.toNat - 48 < 10 := by
  simp only [Char.isDigit, Bool.and_eq_true, decide_eq_true_eq, ge_iff_le, UInt32.le_iff_toNat_le] at h
  have h9 : '9'.val.toNat = 57 := rfl
  have hc : c.toNat = c.val.toNat := rfl
  omega

theorem natOfDigits?_eq (hne : cs ≠ []) (h : ∀ c ∈ cs, c.isDigit = true) :
    natOfDigits? 10 cs = some (Nat.ofDigitChars 10 cs 0) := by
  have hfold : ∀ n, cs.foldl (fun acc c ↦ do
      let n ← acc
      let v ← hexValue? c
      if v < 10 then some (n * 10 + v) else none) (some n) = some (Nat.ofDigitChars 10 cs n) := by
    clear hne
    induction cs with
    | nil => intro n; rfl
    | cons c cs ih =>
      intro n
      rw [List.forall_mem_cons] at h
      have hvalue := toNat_sub_lt_of_isDigit h.1
      rw [List.foldl_cons, Nat.ofDigitChars_cons, Nat.mul_comm 10 n]
      simpa [hexValue?_of_isDigit h.1, hvalue] using ih h.2 (n * 10 + (c.toNat - 48))
  rw [natOfDigits?, if_neg (by simpa using hne)]
  exact hfold 0

theorem ofDigitChars_toString (n : ℕ) : Nat.ofDigitChars 10 (toString n).toList 0 = n := by
  rw [Nat.toString_eq_repr, Nat.toList_repr, Nat.ofDigitChars_ten_toDigits]

theorem natOfDigits?_toString (n : ℕ) : natOfDigits? 10 (toString n).toList = some n := by
  rw [natOfDigits?_eq (by simp) fun _ ↦ isDigit_of_mem_toString, ofDigitChars_toString]

theorem splitSign_eq_self {p : Char → Bool} (hp : p '-' = false ∧ p '+' = false) (h : ∀ c ∈ cs, p c = true) :
    splitSign cs = (false, cs) := by
  rw [splitSign.eq_def]
  split
  · simp [hp] at h
  · simp [hp] at h
  · rfl

theorem readInt?_toString {bits : ℕ} {n : ℤ} (hlow : -2 ^ (bits - 1) ≤ n) (hhigh : n < 2 ^ (bits - 1)) :
    readInt? bits (toString n) = some n := by
  cases n with
  | ofNat n =>
    have hsplit : splitSign (toString n).toList = (false, (toString n).toList) :=
      splitSign_eq_self (by decide) fun _ ↦ isDigit_of_mem_toString
    have hfits : n < 2 ^ (bits - 1) := by
      rw [Int.ofNat_eq_natCast] at hhigh
      exact_mod_cast hhigh
    show readInt? bits (toString n) = some (n : ℤ)
    rw [readInt?, hsplit]
    dsimp only
    rw [natOfDigits?_toString, Option.bind_some, signedWithin?, if_neg Bool.false_ne_true]
    exact if_pos hfits
  | negSucc n =>
    have htext : (toString (Int.negSucc n)).toList = '-' :: (toString (n + 1)).toList := by
      have hsign : toString (Int.negSucc n) = "-" ++ toString (n + 1) := rfl
      rw [hsign, String.toList_append]
      rfl
    have hfits : n + 1 ≤ 2 ^ (bits - 1) := by
      rw [Int.negSucc_eq, neg_le_neg_iff] at hlow
      exact_mod_cast hlow
    rw [readInt?, htext, splitSign]
    dsimp only
    rw [natOfDigits?_toString, Option.bind_some, signedWithin?, if_pos rfl]
    exact if_pos hfits

theorem scanMantissa_digits (h : ∀ c ∈ cs, c.isDigit = true) (m : MantissaScan) (rest : List Char) :
    scanMantissa 10 m (cs ++ rest) = scanMantissa 10 ⟨Nat.ofDigitChars 10 cs m.digits,
      if m.sawPoint then m.fraction + cs.length else m.fraction, m.sawPoint, m.sawDigit || !cs.isEmpty⟩ rest := by
  induction cs generalizing m with
  | nil => simp
  | cons c cs ih =>
    rw [List.forall_mem_cons] at h
    have hvalue := toNat_sub_lt_of_isDigit h.1
    have hunderscore : c ≠ '_' := by rintro rfl; exact absurd h.1 (by decide)
    have hpoint : c ≠ '.' := by rintro rfl; exact absurd h.1 (by decide)
    rw [List.cons_append, scanMantissa, if_neg hunderscore, if_neg hpoint, hexValue?_of_isDigit h.1]
    dsimp only
    rw [if_pos hvalue, ih h.2, Nat.ofDigitChars_cons, Nat.mul_comm m.digits 10]
    congr 2
    · cases m.sawPoint <;> simp [Nat.add_assoc, Nat.add_comm 1]
    · simp

def isFigure (c : Char) : Bool := c.isDigit || c == '.'

theorem isFigure_of_isDigit (h : c.isDigit = true) : isFigure c = true := by simp [isFigure, h]

/-- A number that is a mantissa and nothing else. -/
structure IsMantissa (cs : List Char) (digits fraction : ℕ) : Prop where
  figures : ∀ c ∈ cs, isFigure c = true
  scan : ∃ sawPoint, scanMantissa 10 ⟨0, 0, false, false⟩ cs = (⟨digits, fraction, sawPoint, true⟩, [])

theorem isMantissa_digits (cs : List Char) (hne : cs ≠ []) (h : ∀ c ∈ cs, c.isDigit = true) :
    IsMantissa cs (Nat.ofDigitChars 10 cs 0) 0 where
  figures c hc := isFigure_of_isDigit (h c hc)
  scan := by
    refine ⟨false, ?_⟩
    have hscan := scanMantissa_digits h ⟨0, 0, false, false⟩ []
    rw [List.append_nil] at hscan
    rw [hscan, scanMantissa]
    simp [hne]

theorem isMantissa_point (cs ds : List Char) (hne : cs ≠ []) (h : ∀ c ∈ cs, c.isDigit = true)
    (h' : ∀ c ∈ ds, c.isDigit = true) :
    IsMantissa (cs ++ '.' :: ds) (Nat.ofDigitChars 10 (cs ++ ds) 0) ds.length where
  figures c hc := by
    rcases List.mem_append.1 hc with hc | hc
    · exact isFigure_of_isDigit (h c hc)
    rcases List.mem_cons.1 hc with rfl | hc
    · decide
    · exact isFigure_of_isDigit (h' c hc)
  scan := by
    refine ⟨true, ?_⟩
    have hscan (m : MantissaScan) := scanMantissa_digits h' m []
    simp only [List.append_nil] at hscan
    rw [scanMantissa_digits h, scanMantissa, if_neg (by decide), if_pos rfl, if_neg (by simp), hscan, scanMantissa,
      Nat.ofDigitChars_append]
    simp [hne]

theorem isDigit_zeros {n : ℕ} (h : c ∈ (zeros n).toList) : c.isDigit = true := by
  rw [zeros, String.toList_ofList] at h
  rw [List.eq_of_mem_replicate h]
  decide

theorem isMantissa_positional (d : ℕ) (k : ℤ) :
    IsMantissa (positional (toString d) ((toString d).length + k)).toList (d * 10 ^ k.toNat) (-k).toNat := by
  have hdigits : ∀ c ∈ (toString d).toList, c.isDigit = true := fun _ ↦ isDigit_of_mem_toString
  have hvalue := ofDigitChars_toString d
  have hne : (toString d).toList ≠ [] := by simp
  generalize toString d = text at *
  have hlength : 0 < text.length := by
    rw [← String.length_toList]
    exact List.length_pos_iff.2 hne
  rw [positional]
  split
  · next hpoint =>
    -- nothing but zeros before the first digit
    obtain ⟨n, hn⟩ : ∃ n : ℕ, (-((text.length : ℤ) + k)).toNat = n := ⟨_, rfl⟩
    have htext : ("0." ++ zeros n ++ text).toList = ['0'] ++ '.' :: ((zeros n).toList ++ text.toList) := by simp
    have hmantissa := isMantissa_point ['0'] ((zeros n).toList ++ text.toList) (by simp) (by simp)
      (fun c hc ↦ (List.mem_append.1 hc).elim isDigit_zeros (hdigits c))
    rw [hn, htext]
    convert hmantissa using 1
    · rw [Int.toNat_of_nonpos (by omega), pow_zero, mul_one, zeros, String.toList_ofList, Nat.ofDigitChars_append,
        Nat.ofDigitChars_append, Nat.ofDigitChars_replicate_zero]
      simpa [Nat.ofDigitChars_cons] using hvalue.symm
    · rw [zeros, String.toList_ofList, List.length_append, List.length_replicate, String.length_toList]
      omega
  · next hpoint =>
    split
    · next hlong =>
      -- the digits and zeros after them, and no point
      rw [String.toList_append]
      have hmantissa := isMantissa_digits (text.toList ++ (zeros (((text.length : ℤ) + k).toNat - text.length)).toList)
        (by simp [hne]) (fun c hc ↦ (List.mem_append.1 hc).elim (hdigits c) isDigit_zeros)
      convert hmantissa using 1
      · rw [Nat.ofDigitChars_append, hvalue, zeros, String.toList_ofList, Nat.ofDigitChars_replicate_zero, mul_comm]
        congr 2
        omega
      · omega
    · next hshort =>
      obtain ⟨n, hn⟩ : ∃ n : ℕ, ((text.length : ℤ) + k).toNat = n := ⟨_, rfl⟩
      have htext : (String.ofList (text.toList.take n) ++ "." ++ String.ofList (text.toList.drop n)).toList =
          text.toList.take n ++ '.' :: text.toList.drop n := by
        simp
      have hmantissa := isMantissa_point (text.toList.take n) (text.toList.drop n)
        (by rw [ne_eq, List.take_eq_nil_iff, not_or]; exact ⟨by omega, hne⟩) (fun c hc ↦ hdigits c (List.mem_of_mem_take hc))
        (fun c hc ↦ hdigits c (List.mem_of_mem_drop hc))
      rw [hn, htext]
      convert hmantissa using 1
      · rw [Int.toNat_of_nonpos (by omega), pow_zero, mul_one, List.take_append_drop, hvalue]
      · rw [List.length_drop, String.length_toList]
        omega

def signText (negative : Bool) : String := if negative then "-" else ""

theorem splitSign_signText (negative : Bool) (h : ∀ c ∈ cs, isFigure c = true) :
    splitSign ((signText negative).toList ++ cs) = (negative, cs) := by
  cases negative with
  | true => simp [signText, splitSign]
  | false =>
    simpa [signText] using splitSign_eq_self (by decide) h

theorem toLower_of_isFigure (h : isFigure c = true) : c.toLower = c := by
  simp only [isFigure, Char.isDigit, Bool.or_eq_true, Bool.and_eq_true, decide_eq_true_eq, beq_iff_eq, ge_iff_le,
    UInt32.le_iff_toNat_le] at h
  rcases h with h | rfl
  · refine dif_neg fun hupper ↦ ?_
    have hlow := UInt32.le_iff_toNat_le.1 hupper.1
    have h9 : '9'.val.toNat = 57 := rfl
    have hA : 'A'.val.toNat = 65 := rfl
    omega
  · rfl

theorem specialBits?_signText (f : Format) (negative : Bool) (h : ∀ c ∈ cs, isFigure c = true) :
    specialBits? f ((signText negative).toList ++ cs) = none := by
  have hlower : cs.map Char.toLower = cs := by
    conv_rhs => rw [← List.map_id cs]
    exact List.map_congr_left fun c hc ↦ toLower_of_isFigure (h c hc)
  have hword {word : String} (hhead : ∃ c ∈ word.toList, isFigure c = false) : String.ofList cs ≠ word := by
    rintro rfl
    obtain ⟨c, hc, hfigure⟩ := hhead
    rw [String.toList_ofList] at hc
    rw [h c hc] at hfigure
    cases hfigure
  have hnan : String.ofList (((signText negative).toList ++ cs).map Char.toLower) ≠ "nan" := by
    cases negative with
    | true =>
      intro heq
      have hlist := congrArg String.toList heq
      simp [signText] at hlist
    | false =>
      rw [show (signText false).toList = [] from rfl, List.nil_append, hlower]
      exact hword ⟨'n', by decide, by decide⟩
  rw [specialBits?, splitSign_signText negative h]
  dsimp only
  rw [hlower, if_neg, if_neg hnan]
  rintro (heq | heq)
  · exact hword ⟨'i', by decide, by decide⟩ heq
  · exact hword ⟨'i', by decide, by decide⟩ heq

theorem splitHex_eq_self (h : ∀ c ∈ cs, isFigure c = true) : splitHex cs = (false, cs) := by
  rw [splitHex.eq_def]
  split
  · next c _ _ =>
    have hc : isFigure c = true := h c (by simp)
    refine if_neg ?_
    rintro (rfl | rfl) <;> exact absurd hc (by decide)
  · rfl

theorem read?_signText (negative : Bool) {digits : ℕ} (h : IsMantissa cs digits fraction) :
    FloatNumeral.read? ((signText negative).toList ++ cs) = some ⟨negative, false, digits, fraction, 0⟩ := by
  obtain ⟨sawPoint, hscan⟩ := h.scan
  have hunderscore : '_' ∉ (signText negative).toList ++ cs := by
    rw [List.mem_append, not_or]
    exact ⟨by cases negative <;> decide, fun hmem ↦ absurd (h.figures _ hmem) (by decide)⟩
  simp [FloatNumeral.read?, splitSign_signText negative h.figures, splitHex_eq_self h.figures, hscan, hunderscore]

theorem bits?_plain (f : Format) (negative : Bool) {digits : ℕ} (hdigits : 0 < digits) (hsize : Nat.log2 digits < 3000)
    (hfraction : fraction ≤ 400) : FloatNumeral.bits? f ⟨negative, false, digits, fraction, 0⟩ =
      (f.nearestBits? digits (10 ^ fraction)).map ((if negative then f.signBit else 0) + ·) := by
  have hhigh : ¬ (Nat.log2 digits : ℤ) * 3 / 10 + (0 - fraction) > 1100 := by omega
  have hlow : ¬ (Nat.log2 digits : ℤ) * 3 / 10 + (0 - fraction) < -1200 := by omega
  have hnum : ((0 : ℤ) - fraction).toNat = 0 := by omega
  have hden : (-((0 : ℤ) - fraction)).toNat = fraction := by omega
  simp only [FloatNumeral.bits?, Bool.false_eq_true, if_false, if_neg hdigits.ne', if_neg hhigh, if_neg hlow, hnum, hden,
    Nat.pow_eq, pow_zero, mul_one]

/-- A decimal in the interval around a value has no more digits than the two formats need. -/
theorem log2_digits_lt (hf : f.IsModest) {m : ℕ} {e : ℤ} (h : f.Holds m e) {d : ℕ} {k : ℤ} (hk : -400 ≤ k)
    (hspans : (Interval.around f m e).Spans (d * 10 ^ k * 2 ^ (2 - e))) (hdigits : 0 < d * 10 ^ k.toNat) :
    Nat.log2 (d * 10 ^ k.toNat) < 3000 := by
  have hten : (d * 10 ^ k.toNat : ℚ) = d * 10 ^ k * 10 ^ (-k).toNat := by
    rw [← pow_toNat_div (by norm_num) k]
    field_simp
  have hmantissa : ((Interval.around f m e).hi : ℚ) ≤ 2 ^ 56 := by
    have hfits := h.fits
    have hpow : 2 ^ f.precision ≤ 2 ^ 53 := Nat.pow_le_pow_right (by decide) hf.short
    rw [Format.two_mul_hiddenBit hf.precise] at hfits
    have hhi : (Interval.around f m e).hi ≤ 2 ^ 56 := by
      show 4 * m + 2 ≤ 2 ^ 56
      omega
    exact_mod_cast hhi
  have hvalue : (d * 10 ^ k : ℚ) = d * 10 ^ k * 2 ^ (2 - e) * 2 ^ (e - 2) := by
    rw [mul_assoc _ ((2 : ℚ) ^ (2 - e)), ← zpow_add₀ (by norm_num), sub_add_sub_cancel, sub_self, zpow_zero, mul_one]
  have hbinary : (2 : ℚ) ^ (e - 2) ≤ 2 ^ 1000 := by
    rw [← zpow_natCast]
    exact zpow_le_zpow_right₀ (by norm_num) (by have := h.exponent_le hf; push_cast; omega)
  have hdecimal : (10 : ℚ) ^ (-k).toNat ≤ 2 ^ 1600 := by
    have hpow : 10 ^ (-k).toNat ≤ 2 ^ 1600 := pow_ten_le (by omega)
    exact_mod_cast hpow
  have hlt : (d * 10 ^ k.toNat : ℚ) < 2 ^ 3000 := calc
    (d * 10 ^ k.toNat : ℚ) = d * 10 ^ k * 2 ^ (2 - e) * 2 ^ (e - 2) * 10 ^ (-k).toNat := by rw [hten, ← hvalue]
    _ ≤ 2 ^ 56 * 2 ^ 1000 * 2 ^ 1600 := by
      gcongr
      exact hspans.bounds.2.trans hmantissa
    _ = 2 ^ 2656 := by rw [← pow_add, ← pow_add]
    _ < 2 ^ 3000 := pow_lt_pow_right₀ (by norm_num) (by norm_num)
  rw [Nat.log2_lt hdigits.ne']
  exact_mod_cast hlt

theorem readBits?_signText (hf : f.IsModest) (negative : Bool) {d : ℕ} {k : ℤ}
    (hcs : IsMantissa cs (d * 10 ^ k.toNat) (-k).toNat) {m : ℕ} {e : ℤ} (hm : 0 < m) (h : f.Holds m e)
    (hspans : (Interval.around f m e).Spans (d * 10 ^ k * 2 ^ (2 - e))) (hk : -400 ≤ k) :
    readBits? f (String.ofList ((signText negative).toList ++ cs)) =
      some ((if negative then f.signBit else 0) + f.bitsOf m e) := by
  have hdigits : 0 < d * 10 ^ k.toNat := by
    refine Nat.mul_pos (Nat.pos_of_ne_zero ?_) (by positivity)
    rintro rfl
    have hlo : 2 ≤ (Interval.around f m e).lo := by
      dsimp only [Interval.around]
      split <;> omega
    have hzero := hspans.bounds.1
    rw [Nat.cast_zero, zero_mul, zero_mul] at hzero
    have : (Interval.around f m e).lo ≤ 0 := by exact_mod_cast hzero
    omega
  have hquotient : ((d * 10 ^ k.toNat : ℕ) : ℚ) / (10 ^ (-k).toNat : ℕ) = d * 10 ^ k := by
    rw [← pow_toNat_div (by norm_num) k]
    push_cast
    ring
  have hbits : f.nearestBits? (d * 10 ^ k.toNat) (10 ^ (-k).toNat) = some (f.bitsOf m e) := by
    refine Format.nearestBits?_of_spans hf.precise hm h hdigits (by positivity) ?_
    rw [hquotient]
    exact hspans
  have hfraction : (-k).toNat ≤ 400 := by omega
  have hsize := log2_digits_lt hf h hk hspans hdigits
  rw [readBits?, String.toList_ofList, specialBits?_signText f negative hcs.figures]
  dsimp only
  rw [read?_signText negative hcs, Option.bind_some, bits?_plain f negative hdigits hsize hfraction, hbits, Option.map_some]

theorem readBits?_render (hf : f.IsModest) (bits : ℕ) (hbits : bits < 2 * f.signBit)
    (hnan : Class.ofBits f bits ≠ .nan) : readBits? f ((Class.ofBits f bits).render .plain f) = some bits := by
  cases hclass : Class.ofBits f bits with
  | nan => exact absurd hclass hnan
  | infinite negative =>
    have hspecial : specialBits? f (if negative then "-Inf" else "+Inf").toList =
        some (f.topField * f.hiddenBit + if negative then f.signBit else 0) := by
      have hsplit : splitSign (if negative then "-Inf" else "+Inf").toList = (negative, "Inf".toList) := by
        cases negative <;> decide
      rw [specialBits?, hsplit]
      exact if_pos (.inl (by decide))
    rw [Class.render, readBits?, hspecial, ← Format.eq_of_ofBits_infinite hbits hclass]
  | finite negative m e =>
    obtain ⟨hholds, hvalue⟩ := Format.eq_of_ofBits hbits hclass
    rw [Class.render]
    by_cases hm : m = 0
    · have hzero : f.bitsOf m e = 0 := by
        rw [hm]
        exact if_pos Format.hiddenBit_pos
      have htext : signText negative ++ "0" = String.ofList ((signText negative).toList ++ ['0']) := by
        rw [← String.toList_inj]
        simp
      have hmantissa : IsMantissa ['0'] 0 0 := isMantissa_digits ['0'] (by simp) (by simp)
      rw [if_pos hm, hvalue, hzero, ← signText, htext, readBits?, String.toList_ofList,
        specialBits?_signText f negative hmantissa.figures]
      dsimp only
      rw [read?_signText negative hmantissa]
      rfl
    · have hspans := shortest_spans hf (Nat.pos_of_ne_zero hm) hholds
      have hmantissa := isMantissa_positional (shortest f m e).digits (shortest f m e).exponent
      have htext : signText negative ++ (shortest f m e).render .plain = String.ofList ((signText negative).toList ++
          (positional (toString (shortest f m e).digits)
            ((toString (shortest f m e).digits).length + (shortest f m e).exponent)).toList) := by
        rw [← String.toList_inj]
        simp [Digits.render, Layout.plain]
      rw [if_neg hm, ← signText, htext, hvalue]
      exact readBits?_signText hf negative hmantissa (Nat.pos_of_ne_zero hm) hholds hspans.1 hspans.2

theorem eq_packedNaN_of_ofBits {spec : Float.Model.Format} {b : BitVec spec.numBits} (hvalid : spec.Valid b)
    (h : Class.ofBits ⟨spec.mantissaBitsWithoutImplicit + 1, spec.exponentBits⟩ b.toNat = .nan) :
    b = Float.Model.UnpackedFloat.packedNaN spec := by
  have hparts : b.toNat / 2 ^ spec.mantissaBitsWithoutImplicit % 2 ^ spec.exponentBits = 2 ^ spec.exponentBits - 1 ∧
      b.toNat % 2 ^ spec.mantissaBitsWithoutImplicit ≠ 0 := by
    simp only [Class.ofBits, Nat.pow_eq] at h
    split at h
    · next hfield =>
      split at h
      · cases h
      · next hfraction => exact ⟨hfield, hfraction⟩
    · split at h <;> cases h
  refine hvalid.eq_packedNaN ?_ fun heq ↦ hparts.2 ?_
  · refine BitVec.eq_of_toNat_eq ?_
    have hwidth : 1 < 2 ^ spec.exponentBits := Nat.one_lt_two_pow spec.he.ne'
    rw [Float.Model.UnpackedFloat.unpackExponent_def, BitVec.extractLsb'_toNat, Nat.shiftRight_eq_div_pow, hparts.1,
      BitVec.toNat_neg, BitVec.toNat_ofNat, Nat.mod_eq_of_lt hwidth, Nat.mod_eq_of_lt (by omega)]
  · have hfraction := congrArg BitVec.toNat heq
    rw [Float.Model.UnpackedFloat.unpackMantissa_def, BitVec.extractLsb'_toNat] at hfraction
    simpa using hfraction

theorem readDouble?_renderDouble (x : Float) : readDouble? (renderDouble .plain x) = some x := by
  by_cases hnan : Class.ofBits .double x.toBits.toNat = .nan
  · have hbits : x.toBits = 0x7ff8000000000000 := UInt64.toBitVec_inj.1 (eq_packedNaN_of_ofBits x.toModel.valid hnan)
    have hread : readDouble? "NaN" = some (Float.ofBits 0x7ff8000000000000) := by decide +kernel
    rw [renderDouble, hnan, Class.render, hread, ← hbits, Float.ofBits_toBits]
  · have hbits := readBits?_render isModest_double x.toBits.toNat x.toBits.toNat_lt hnan
    rw [readDouble?, renderDouble, hbits, Option.map_some]
    simp

theorem readSingle?_renderSingle (x : Float32) : readSingle? (renderSingle .plain x) = some x := by
  by_cases hnan : Class.ofBits .single x.toBits.toNat = .nan
  · have hbits : x.toBits = 0x7fc00000 := UInt32.toBitVec_inj.1 (eq_packedNaN_of_ofBits x.toModel.valid hnan)
    have hread : readSingle? "NaN" = some (Float32.ofBits 0x7fc00000) := by decide +kernel
    rw [renderSingle, hnan, Class.render, hread, ← hbits, Float32.ofBits_toBits]
  · have hbits := readBits?_render isModest_single x.toBits.toNat x.toBits.toNat_lt hnan
    rw [readSingle?, renderSingle, hbits, Option.map_some]
    simp

end CommandPack.Decimal
