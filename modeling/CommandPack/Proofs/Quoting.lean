import Mathlib
import CommandPack.Text.Quoted

/-!
A quoted text reads back. Every character is written as itself or as an escape that stands for its bytes, and
the bytes of characters decode to the characters.
-/

namespace CommandPack.Text

variable {c : Char} {n v : Nat}

theorem hexValue?_hexDigit (h : n < 16) : hexValue? (hexDigit n) = some n := by
  have hall : ∀ k : Fin 16, hexValue? (hexDigit k) = some k.val := by decide
  exact hall ⟨n, h⟩

theorem readDigits?_hexPadded (w k acc n : Nat) (rest : List Char) :
    readDigits? 16 (w + k) acc (hexPadded w n ++ rest) = readDigits? 16 k (acc * 16 ^ w + n % 16 ^ w) rest := by
  induction w generalizing n k rest with
  | zero => simp [hexPadded, Nat.mod_one]
  | succ w ih =>
    have hlast : n % 16 < 16 := Nat.mod_lt _ (by decide)
    have hvalue : (acc * 16 ^ w + n / 16 % 16 ^ w) * 16 + n % 16 = acc * 16 ^ (w + 1) + n % 16 ^ (w + 1) := by
      have hmod : n % 16 ^ (w + 1) = n % 16 + 16 * (n / 16 % 16 ^ w) := by rw [pow_succ', Nat.mod_mul]
      rw [hmod]
      ring
    rw [hexPadded, List.append_assoc, Nat.add_right_comm, Nat.add_assoc, ih]
    simp only [List.singleton_append, readDigits?, hexValue?_hexDigit hlast, if_pos hlast, hvalue]

theorem toList_loop (bytes : ByteArray) (i : Nat) (before : List UInt8) :
    ByteArray.toList.loop bytes i before = before.reverse ++ bytes.data.toList.drop i := by
  fun_induction ByteArray.toList.loop bytes i before with
  | case1 i before hi ih =>
    have hsize : i < bytes.data.toList.length := by simpa using hi
    have hget : bytes.get! i = bytes.data.toList[i] := by
      change bytes.data[i]! = _
      rw [getElem!_pos bytes.data i (by simpa using hi), Array.getElem_toList]
    rw [ih, List.drop_eq_getElem_cons hsize, hget]
    simp
  | case2 i before hi =>
    have hnil : bytes.data.toList.drop i = [] := by
      rw [List.drop_eq_nil_iff]
      simpa using hi
    rw [hnil, List.append_nil]

theorem utf8Bytes_eq (c : Char) : utf8Bytes c = String.utf8EncodeChar c := by
  have hdata : (String.ofList [c]).toUTF8.data.toList = String.utf8EncodeChar c := by
    simp [String.toUTF8, List.utf8Encode_singleton]
  rw [utf8Bytes, ByteArray.toList, toList_loop, hdata]
  rfl

theorem utf8Bytes_of_ascii (h : c.toNat < 0x80) : utf8Bytes c = [c.toNat.toUInt8] := by
  rw [utf8Bytes_eq, String.utf8EncodeChar]
  exact if_pos (Nat.le_of_lt_succ h)

theorem isScalar_toNat (c : Char) : isScalar c.toNat = true := by
  have h : c.toNat.isValidChar := c.valid
  simp only [Nat.isValidChar] at h
  simp only [isScalar, Bool.or_eq_true, Bool.and_eq_true, decide_eq_true_eq]
  omega

theorem toNat_lt (c : Char) : c.toNat < 0x110000 := by
  have h := isScalar_toNat c
  simp only [isScalar, Bool.or_eq_true, Bool.and_eq_true, decide_eq_true_eq] at h
  omega

theorem toNat_byte (h : n < 256) : (UInt8.ofNat n).toNat = n := by
  rw [UInt8.toNat_ofNat', Nat.mod_eq_of_lt h]

theorem takeContinuation?_cons (h : v < 64) (n acc : Nat) (bytes : List UInt8) :
    takeContinuation? (n + 1) acc (UInt8.ofNat (v + 128) :: bytes) = takeContinuation? n (acc * 64 + v) bytes := by
  have hbyte : (UInt8.ofNat (v + 128)).toNat = v + 128 := toNat_byte (by omega)
  rw [takeContinuation?, hbyte, if_pos (by omega), Nat.add_sub_cancel]

theorem leadByte?_one (h : v < 0x80) : leadByte? (UInt8.ofNat v) = some (0, v) := by
  simp [leadByte?, toNat_byte (show v < 256 by omega), h]

theorem leadByte?_two (hlo : 2 ≤ v) (hhi : v < 32) : leadByte? (UInt8.ofNat (v + 192)) = some (1, v) := by
  have hbyte : (UInt8.ofNat (v + 192)).toNat = v + 192 := toNat_byte (by omega)
  simp only [leadByte?, hbyte]
  rw [if_neg (by omega), if_pos (by omega), Nat.add_sub_cancel]

theorem leadByte?_three (h : v < 16) : leadByte? (UInt8.ofNat (v + 224)) = some (2, v) := by
  have hbyte : (UInt8.ofNat (v + 224)).toNat = v + 224 := toNat_byte (by omega)
  simp only [leadByte?, hbyte]
  rw [if_neg (by omega), if_neg (by omega), if_pos (by omega), Nat.add_sub_cancel]

theorem leadByte?_four (h : v < 5) : leadByte? (UInt8.ofNat (v + 240)) = some (3, v) := by
  have hbyte : (UInt8.ofNat (v + 240)).toNat = v + 240 := toNat_byte (by omega)
  simp only [leadByte?, hbyte]
  rw [if_neg (by omega), if_neg (by omega), if_neg (by omega), if_pos (by omega), Nat.add_sub_cancel]

theorem decodeFirst?_cons {b : UInt8} {bits : Nat} {bytes rest : List UInt8} (hlead : leadByte? b = some (n, bits))
    (htake : takeContinuation? n bits bytes = some (c.toNat, rest))
    (hleast : (if n = 2 then 0x800 else if n = 3 then 0x10000 else 0) ≤ c.toNat) :
    decodeFirst? (b :: bytes) = some (c, rest) := by
  rw [decodeFirst?, hlead]
  simp only [htake]
  rw [if_pos ⟨isScalar_toNat c, hleast⟩, Char.ofNat_toNat]

/-- The bytes of a character are read as the character. There is one case for each number of bytes. -/
theorem decodeFirst?_utf8Bytes (c : Char) (rest : List UInt8) :
    decodeFirst? (utf8Bytes c ++ rest) = some (c, rest) := by
  have hmax := toNat_lt c
  have hmod (n : Nat) : n % 64 < 64 := Nat.mod_lt n (by decide)
  have hlast {v : Nat} (hv : v = c.toNat) : takeContinuation? 0 v rest = some (c.toNat, rest) := by rw [hv, takeContinuation?]
  rw [utf8Bytes_eq, String.utf8EncodeChar]
  dsimp only [Char.toNat_val]
  by_cases h₁ : c.toNat ≤ 127
  · rw [if_pos h₁]
    exact decodeFirst?_cons (leadByte?_one (Nat.lt_succ_of_le h₁)) (hlast rfl) (Nat.zero_le _)
  rw [if_neg h₁]
  by_cases h₂ : c.toNat ≤ 2047
  · rw [if_pos h₂, List.cons_append, List.singleton_append]
    refine decodeFirst?_cons (leadByte?_two (by omega) (Nat.mod_lt _ (by decide))) ?_ (Nat.zero_le _)
    rw [takeContinuation?_cons (hmod _)]
    exact hlast (by omega)
  rw [if_neg h₂]
  by_cases h₃ : c.toNat ≤ 65535
  · rw [if_pos h₃, List.cons_append, List.cons_append, List.singleton_append]
    refine decodeFirst?_cons (leadByte?_three (Nat.mod_lt _ (by decide))) ?_ (show 0x800 ≤ _ by omega)
    rw [takeContinuation?_cons (hmod _), takeContinuation?_cons (hmod _)]
    exact hlast (by omega)
  · rw [if_neg h₃, List.cons_append, List.cons_append, List.cons_append, List.singleton_append]
    refine decodeFirst?_cons (leadByte?_four (by omega)) ?_ (show 0x10000 ≤ _ by omega)
    rw [takeContinuation?_cons (hmod _), takeContinuation?_cons (hmod _), takeContinuation?_cons (hmod _)]
    exact hlast (by omega)

theorem one_le_length_utf8Bytes (c : Char) : 1 ≤ (utf8Bytes c).length := by
  rw [utf8Bytes_eq, String.length_utf8EncodeChar]
  exact c.utf8Size_pos

theorem decodeLossy_utf8Bytes {left : Nat} {cs : List Char} (h : (cs.flatMap utf8Bytes).length ≤ left) :
    decodeLossy left (cs.flatMap utf8Bytes) = cs := by
  induction cs generalizing left with
  | nil => cases left <;> rfl
  | cons c cs ih =>
    have hone := one_le_length_utf8Bytes c
    have hread := decodeFirst?_utf8Bytes c (cs.flatMap utf8Bytes)
    rw [List.flatMap_cons, List.length_append] at h
    obtain ⟨left, rfl⟩ : ∃ n, left = n + 1 := Nat.exists_eq_add_one.2 (by omega)
    rw [List.flatMap_cons]
    cases hbytes : utf8Bytes c ++ cs.flatMap utf8Bytes with
    | nil =>
      rw [hbytes] at hread
      cases hread
    | cons b bs =>
      rw [hbytes] at hread
      simp only [decodeLossy, hread]
      rw [ih (by omega)]

theorem isPrintable_newline : isPrintable '\n' = false := by decide +kernel

theorem controlLetter?_of_toNat {l : Char} (h : controlLetter? c = some l) (rest : List Char) :
    readUnit? '"' ('\\' :: l :: rest) = some ([c.toNat.toUInt8], rest) ∧ c.toNat < 0x80 := by
  unfold controlLetter? at h
  split at h
  case h_8 => cases h
  all_goals
    cases h
    rename_i hc
    rw [hc]
    exact ⟨rfl, by decide⟩

theorem readDigits?_toNat {w : Nat} (h : c.toNat < 16 ^ w) (rest : List Char) :
    readDigits? 16 w 0 (hexPadded w c.toNat ++ rest) = some (c.toNat, rest) := by
  have hread := readDigits?_hexPadded w 0 0 c.toNat rest
  rwa [Nat.add_zero, Nat.zero_mul, Nat.zero_add, Nat.mod_eq_of_lt h, readDigits?] at hread

theorem readUnit?_escapeChar (c : Char) (rest : List Char) :
    readUnit? '"' (escapeChar '"' c ++ rest) = some (utf8Bytes c, rest) := by
  have hmax := toNat_lt c
  unfold escapeChar
  by_cases hmark : c = '"' ∨ c = '\\'
  · rw [if_pos hmark]
    rcases hmark with rfl | rfl <;> rw [utf8Bytes_of_ascii (by decide)] <;> rfl
  rw [if_neg hmark]
  by_cases hprint : isPrintable c = true
  · have hline : c ≠ '\n' := by
      rintro rfl
      rw [isPrintable_newline] at hprint
      cases hprint
    rw [if_pos hprint, List.singleton_append]
    rw [not_or] at hmark
    simp [readUnit?, hmark, hline]
  rw [if_neg hprint]
  cases hletter : controlLetter? c with
  | some l =>
    obtain ⟨hread, hsmall⟩ := controlLetter?_of_toNat hletter rest
    rw [utf8Bytes_of_ascii hsmall]
    exact hread
  | none =>
    dsimp only
    split
    · next hsmall =>
      rw [List.cons_append, List.cons_append, readUnit?, readDigits?_toNat (by omega), utf8Bytes_of_ascii hsmall]
      rfl
    · split
      · next hbmp =>
        rw [List.cons_append, List.cons_append, readUnit?, readDigits?_toNat (by omega)]
        simp only [isScalar_toNat, if_true, Char.ofNat_toNat]
      · rw [List.cons_append, List.cons_append, readUnit?, readDigits?_toNat (by omega)]
        simp only [isScalar_toNat, if_true, Char.ofNat_toNat]

theorem one_le_length_escapeChar (mark c : Char) : 1 ≤ (escapeChar mark c).length := by
  unfold escapeChar
  split
  · simp
  split
  · simp
  split
  · simp
  split
  · simp
  split <;> simp

theorem readUnits?_flatMap {left : Nat} {cs : List Char} (h : (cs.flatMap (escapeChar '"')).length < left) :
    readUnits? '"' left (cs.flatMap (escapeChar '"') ++ ['"']) = some (cs.flatMap utf8Bytes) := by
  induction cs generalizing left with
  | nil =>
    obtain ⟨left, rfl⟩ := Nat.exists_eq_add_of_lt h
    simp [readUnits?]
  | cons c cs ih =>
    have hone := one_le_length_escapeChar '"' c
    rw [List.flatMap_cons, List.length_append] at h
    obtain ⟨left, rfl⟩ : ∃ n, left = n + 1 := Nat.exists_eq_add_one.2 (by omega)
    rw [List.flatMap_cons, List.append_assoc, readUnits?, readUnit?_escapeChar]
    · simp only [ih (show _ < left by omega), Option.map_some, List.flatMap_cons]
    · intro d hd
      have hlength := congrArg List.length hd
      simp only [List.length_append, List.length_singleton] at hlength
      omega

theorem unquote?_quote (s : String) : unquote? (quote s) = some s := by
  have hunits : readUnits? '"' ((s.toList.flatMap (escapeChar '"') ++ ['"']).length + 1)
      (s.toList.flatMap (escapeChar '"') ++ ['"']) = some (s.toList.flatMap utf8Bytes) := by
    refine readUnits?_flatMap ?_
    rw [List.length_append]
    omega
  rw [unquote?, quote, encode, String.toList_ofList]
  simp only [List.cons_append, hunits, Option.map_some, decodeLossy_utf8Bytes (Nat.le_refl _), String.ofList_toList]

theorem isDigit_of_mem_toString (h : c ∈ (toString n).toList) : c.isDigit = true :=
  Nat.isDigit_of_mem_toDigits (b := 10) (n := n) (by decide) (by decide) (by simpa using h)

theorem isDigit_or_minus_of_mem_toString {n : Int} (h : c ∈ (toString n).toList) : c.isDigit = true ∨ c = '-' := by
  cases n with
  | ofNat n => exact .inl (isDigit_of_mem_toString (n := n) h)
  | negSucc n =>
    have hsign : toString (Int.negSucc n) = "-" ++ toString (n + 1) := rfl
    rw [hsign, String.toList_append, List.mem_append] at h
    rcases h with h | h
    · exact .inr (by simpa using h)
    · exact .inl (isDigit_of_mem_toString h)

theorem unquote?_toString (n : Int) : unquote? (toString n) = none := by
  have hhead {c : Char} {cs : List Char} (h : (toString n).toList = c :: cs) : c.isDigit = true ∨ c = '-' :=
    isDigit_or_minus_of_mem_toString (h ▸ List.mem_cons_self)
  rw [unquote?]
  split
  · next hcs => exact absurd (hhead hcs) (by decide)
  · next hcs => exact absurd (hhead hcs) (by decide)
  · next hcs => exact absurd (hhead hcs) (by decide)
  · next hcs => exact absurd (hhead hcs) (by decide)
  · rfl

end CommandPack.Text
