import Mathlib
import CommandPack.Datum
import CommandPack.Proofs.Dictionary
import CommandPack.Proofs.Quoting
import CommandPack.Proofs.Words

/-!
JSON values as text. A written value is one word of a command and stays on its line; whatever is read from it is
the value, its fields put together one after the other.
-/

namespace CommandPack

open Text

theorem except_bind_eq_ok {ε α β : Type} {x : Except ε α} {f : α → Except ε β} {b : β} :
    x >>= f = .ok b ↔ ∃ a, x = .ok a ∧ f a = .ok b := by
  cases x with
  | error e => simp [bind, Except.bind]
  | ok a => simp [bind, Except.bind]

namespace Json

variable {cs ds mid rest rest' taken : List Char} {c : Char} {digits n : String} {fuel : Nat} {items : List Json}
  {fs : List (String × Json)}

def isNumeralChar (c : Char) : Bool := c.isAlphanum || c == '+' || c == '-' || c == '.'

/-- A written number: it starts with no letter that the name of another value starts with. -/
def isNumeral (cs : List Char) : Bool := cs.all isNumeralChar && cs.head?.any (!·.isLower)

mutual

/-- All numbers of the value are written as numbers. -/
def isSpelled : Json → Bool
  | number numeral => isNumeral numeral.toList
  | array items => itemsSpelled items
  | object fields => fieldsSpelled fields
  | _ => true

def itemsSpelled : List Json → Bool
  | [] => true
  | v :: vs => isSpelled v && itemsSpelled vs

def fieldsSpelled : List (String × Json) → Bool
  | [] => true
  | (_, v) :: fs => isSpelled v && fieldsSpelled fs

end

/-- A text that a number before it would go on with. -/
def Clings (cs : List Char) : Prop := ∃ c ∈ cs.head?, isNumeralChar c = true

theorem isNumeralChar_of_isDigit (h : isDigit c = true) : isNumeralChar c = true := by
  have hdigit : c.isDigit = true := by
    simp only [isDigit, Bool.and_eq_true, decide_eq_true_eq] at h
    simp only [Char.isDigit, Bool.and_eq_true, decide_eq_true_eq]
    exact h
  simp [isNumeralChar, Char.isAlphanum, hdigit]

/-- What is read of a number is a part of the text, and its characters are those of numbers. -/
def Takes (cs taken rest : List Char) : Prop := taken ++ rest = cs ∧ ∀ c ∈ taken, isNumeralChar c = true

theorem takes_nil (cs : List Char) : Takes cs [] cs := ⟨rfl, by simp⟩

theorem Takes.cons (h : Takes cs taken rest) (hc : isNumeralChar c = true) : Takes (c :: cs) (c :: taken) rest :=
  ⟨congrArg (c :: ·) h.1, by simpa [hc] using h.2⟩

theorem Takes.append {taken' : List Char} (h : Takes cs taken mid) (h' : Takes mid taken' rest) :
    Takes cs (taken ++ taken') rest :=
  ⟨by rw [List.append_assoc, h'.1, h.1], fun c hc ↦ (List.mem_append.1 hc).elim (h.2 c) (h'.2 c)⟩

theorem takes_readDigitRun? (h : readDigitRun? cs = some (ds, rest)) : Takes cs ds rest := by
  rw [readDigitRun?] at h
  split at h
  · cases h
  · cases h
    refine ⟨List.takeWhile_append_dropWhile, fun c hc ↦ isNumeralChar_of_isDigit (List.mem_takeWhile_imp hc)⟩

theorem takes_readWhole? (h : readWhole? cs = some (ds, rest)) : Takes cs ds rest := by
  rw [readWhole?.eq_def] at h
  split at h
  · cases h
    exact (takes_nil _).cons (by decide)
  · exact takes_readDigitRun? h

theorem takes_readFraction? (h : readFraction? cs = some (ds, rest)) : Takes cs ds rest := by
  rw [readFraction?.eq_def] at h
  split at h
  · obtain ⟨⟨ds, rest⟩, hrun, heq⟩ := Option.map_eq_some_iff.1 h
    cases heq
    exact (takes_readDigitRun? hrun).cons (by decide)
  · cases h
    exact takes_nil _

theorem takes_readExponent? (h : readExponent? cs = some (ds, rest)) : Takes cs ds rest := by
  rw [readExponent?.eq_def] at h
  split at h
  · next e cs =>
    split at h
    · next he =>
      have hmark : isNumeralChar e = true := by rcases he with rfl | rfl <;> decide
      split at h <;> obtain ⟨⟨ds, rest⟩, hrun, heq⟩ := Option.map_eq_some_iff.1 h <;> cases heq
      · exact ((takes_readDigitRun? hrun).cons (by decide)).cons hmark
      · exact ((takes_readDigitRun? hrun).cons (by decide)).cons hmark
      · exact (takes_readDigitRun? hrun).cons hmark
    · cases h
      exact takes_nil _
  · cases h
    exact takes_nil _

def readUnsigned? (sign cs : List Char) : Option (String × List Char) := do
  let (whole, cs) ← readWhole? cs
  let (fraction, cs) ← readFraction? cs
  let (exponent, cs) ← readExponent? cs
  some (String.ofList (sign ++ whole ++ fraction ++ exponent), cs)

theorem takes_readUnsigned? {sign : List Char} (hsign : Takes cs sign mid)
    (h : readUnsigned? sign mid = some (n, rest)) : Takes cs n.toList rest := by
  simp only [readUnsigned?, Option.bind_eq_bind, Option.bind_eq_some_iff] at h
  obtain ⟨⟨whole, cs₁⟩, hwhole, ⟨fraction, cs₂⟩, hfraction, ⟨exponent, cs₃⟩, hexponent, heq⟩ := h
  cases heq
  rw [String.toList_ofList]
  exact ((hsign.append (takes_readWhole? hwhole)).append (takes_readFraction? hfraction)).append
    (takes_readExponent? hexponent)

theorem takes_readNumber? (h : readNumber? cs = some (n, rest)) : Takes cs n.toList rest := by
  rw [readNumber?.eq_def] at h
  split at h
  next sign mid hsign =>
  refine takes_readUnsigned? ?_ h
  split at hsign
  · cases hsign
    exact (takes_nil _).cons (by decide)
  · cases hsign
    exact takes_nil _

theorem readNumber?_numeral {numeral : List Char} (hall : numeral.all isNumeralChar = true) (hrest : ¬ Clings rest)
    (h : readNumber? (numeral ++ rest) = some (n, rest')) : n.toList = numeral ∧ rest' = rest ∨ Clings rest' := by
  obtain ⟨happend, htaken⟩ := takes_readNumber? h
  rcases List.append_eq_append_iff.1 happend with ⟨more, hmore, hrest'⟩ | ⟨more, hmore, hrest'⟩
  · cases more with
    | nil => exact .inl ⟨by simpa using hmore.symm, by simpa using hrest'⟩
    | cons c more =>
      refine .inr ⟨c, by simp [hrest'], ?_⟩
      rw [hmore] at hall
      simp only [List.all_append, List.all_cons, Bool.and_eq_true] at hall
      exact hall.2.1
  · cases more with
    | nil => exact .inl ⟨by simpa using hmore, by simpa using hrest'.symm⟩
    | cons c more =>
      refine absurd ⟨c, by simp [hrest'], ?_⟩ hrest
      exact htaken c (by simp [hmore])

theorem pair?_toNat (c : Char) (lo : Nat) : pair? c.toNat lo = none := by
  have h := isScalar_toNat c
  simp only [isScalar, Bool.or_eq_true, Bool.and_eq_true, decide_eq_true_eq] at h
  rw [pair?, if_neg]
  omega

theorem readText?_escapeChar (fuel : Nat) (acc : List Char) (c : Char) (rest : List Char) :
    readText? (fuel + 1) acc (escapeChar .bare c ++ rest) = readText? fuel (c :: acc) rest := by
  unfold escapeChar
  by_cases hmark : c = '"' ∨ c = '\\'
  · rw [if_pos hmark]
    rcases hmark with rfl | rfl <;> rfl
  rw [if_neg hmark]
  by_cases hline : c = '\n'
  · subst hline
    rfl
  rw [if_neg hline]
  by_cases hreturn : c = '\r'
  · subst hreturn
    rfl
  rw [if_neg hreturn]
  by_cases htab : c = '\t'
  · subst htab
    rfl
  rw [if_neg htab]
  by_cases hcontrol : c.toNat < 0x20 ∨ c.toNat = 0x2028 ∨ c.toNat = 0x2029 ∨
      (Escaping.bare.markup ∧ (c = '<' ∨ c = '>' ∨ c = '&'))
  · have hsmall : c.toNat < 16 ^ 4 := by
      simp only [Escaping.bare, Bool.false_eq_true, false_and, or_false] at hcontrol
      omega
    have hchar : (if isScalar c.toNat then Char.ofNat c.toNat else '�') = c := by
      rw [if_pos (isScalar_toNat c), Char.ofNat_toNat]
    rw [if_pos hcontrol, List.cons_append, List.cons_append, readText?]
    simp only [readDigits?_toNat hsmall, pair?_toNat, hchar]
    split <;> rfl
  · rw [if_neg hcontrol, List.singleton_append]
    rw [not_or] at hmark hcontrol
    simp [readText?, hmark, hcontrol.1]

theorem eq_of_readText? {acc : List Char} {s : String}
    (h : readText? fuel acc (cs.flatMap (escapeChar .bare) ++ '"' :: rest) = some (s, rest')) :
    s = String.ofList (acc.reverse ++ cs) ∧ rest' = rest := by
  induction cs generalizing fuel acc with
  | nil =>
    cases fuel with
    | zero => cases h
    | succ fuel =>
      cases h
      simp
  | cons c cs ih =>
    cases fuel with
    | zero => cases h
    | succ fuel =>
      rw [List.flatMap_cons, List.append_assoc, readText?_escapeChar] at h
      simpa using ih h

theorem toList_renderText (s : String) (rest : List Char) :
    (renderText .bare s).toList ++ rest = '"' :: (s.toList.flatMap (escapeChar .bare) ++ '"' :: rest) := by
  simp [renderText]

mutual

def normal : Json → Json
  | null => null
  | bool b => bool b
  | number numeral => number numeral
  | string s => string s
  | array items => array (normalItems items)
  | object fields => object (normalFields [] fields)

def normalItems : List Json → List Json
  | [] => []
  | v :: vs => normal v :: normalItems vs

def normalFields (before : Dict Json) : List (String × Json) → Dict Json
  | [] => before
  | (k, v) :: fs => normalFields (before.insert k (normal v)) fs

end

theorem not_clings_cons (h : isNumeralChar c = false) (cs : List Char) : ¬ Clings (c :: cs) := by
  rintro ⟨d, hd, hnumeral⟩
  cases hd
  rw [h] at hnumeral
  cases hnumeral

theorem isGap_of_isNumeralChar (h : isNumeralChar c = true) : isGap c = false := by
  rw [Bool.eq_false_iff]
  intro hgap
  simp only [isGap, Bool.or_eq_true, beq_iff_eq] at hgap
  rcases hgap with ((rfl | rfl) | rfl) | rfl <;> revert h <;> decide

theorem not_clings_of_skipGap (h : skipGap cs = c :: rest) (hc : isNumeralChar c = false) : ¬ Clings cs := by
  rintro ⟨d, hd, hnumeral⟩
  cases cs with
  | nil => cases hd
  | cons e cs =>
    cases hd
    have hskip : skipGap (d :: cs) = d :: cs := by
      rw [skipGap, List.dropWhile_cons_of_neg]
      simp [isGap_of_isNumeralChar hnumeral]
    rw [hskip] at h
    cases h
    rw [hc] at hnumeral
    cases hnumeral

theorem skipGap_cons (h : isGap c = false) (cs : List Char) : skipGap (c :: cs) = c :: cs := by
  rw [skipGap, List.dropWhile_cons_of_neg]
  simp [h]

def Reads (j : Json) : Prop :=
  ∀ {fuel : Nat} {rest rest' : List Char} {v : Json}, ¬ Clings rest →
    readValue? fuel ((render .bare j).toList ++ rest) = some (v, rest') → v = normal j ∧ rest' = rest ∨ Clings rest'

theorem reads_of_eq {j : Json} (h : ∀ fuel rest, readValue? (fuel + 1) ((render .bare j).toList ++ rest) =
    some (normal j, rest)) : Reads j := by
  intro fuel rest rest' v hrest hread
  cases fuel with
  | zero => cases hread
  | succ fuel =>
    rw [h] at hread
    cases hread
    exact .inl ⟨rfl, rfl⟩

theorem reads_string (s : String) : Reads (string s) := by
  intro fuel rest rest' v hrest hread
  cases fuel with
  | zero => cases hread
  | succ fuel =>
    rw [render, toList_renderText] at hread
    obtain ⟨⟨s', mid⟩, htext, heq⟩ := Option.map_eq_some_iff.1 hread
    cases heq
    obtain ⟨rfl, rfl⟩ := eq_of_readText? htext
    exact .inl ⟨by simp [normal], rfl⟩

theorem readValue?_numeral (hc : isNumeralChar c = true) (hlow : c.isLower = false) (fuel : Nat) (cs : List Char) :
    readValue? (fuel + 1) (c :: cs) = (readNumber? (c :: cs)).map fun (n, rest) ↦ (number n, rest) := by
  rw [readValue?, skipGap_cons (isGap_of_isNumeralChar hc)]
  split
  case h_7 => rfl
  all_goals
    next heq =>
    cases heq
    first
      | exact absurd hlow (by decide)
      | exact absurd hc (by decide)

theorem reads_number {numeral : String} (h : isNumeral numeral.toList = true) : Reads (number numeral) := by
  intro fuel rest rest' v hrest hread
  rw [isNumeral, Bool.and_eq_true] at h
  obtain ⟨hall, hhead⟩ := h
  cases fuel with
  | zero => cases hread
  | succ fuel =>
    rw [render] at hread
    cases hcs : numeral.toList with
    | nil => simp [hcs] at hhead
    | cons c cs =>
      have hc : isNumeralChar c = true := by
        rw [hcs, List.all_cons, Bool.and_eq_true] at hall
        exact hall.1
      have hlow : c.isLower = false := by simpa [hcs] using hhead
      rw [hcs, List.cons_append, readValue?_numeral hc hlow, ← List.cons_append, ← hcs] at hread
      obtain ⟨⟨n, mid⟩, hnumber, heq⟩ := Option.map_eq_some_iff.1 hread
      cases heq
      rcases readNumber?_numeral hall hrest hnumber with ⟨hn, hmid⟩ | hmid
      · exact .inl ⟨by rw [normal, String.toList_injective hn], hmid⟩
      · exact .inr hmid

theorem readItems?_cases {x : Json} (h : readItems? fuel items cs = some (x, rest)) :
    ∃ n v mid, readValue? n cs = some (v, mid) ∧
      ((∃ mid', skipGap mid = ',' :: mid' ∧ readItems? n (v :: items) mid' = some (x, rest)) ∨
        skipGap mid = ']' :: rest ∧ x = array (v :: items).reverse) := by
  cases fuel with
  | zero => cases h
  | succ fuel =>
    rw [readItems?] at h
    split at h
    · cases h
    · next v mid hvalue =>
      refine ⟨fuel, v, mid, hvalue, ?_⟩
      split at h
      · next mid' hskip => exact .inl ⟨mid', hskip, h⟩
      · next mid' hskip =>
        cases h
        exact .inr ⟨hskip, rfl⟩
      · cases h

theorem readFields?_cases {fields : Dict Json} {k : String} {x : Json}
    (h : readFields? fuel fields ((renderText .bare k).toList ++ ':' :: cs) = some (x, rest)) :
    ∃ n v mid, readValue? n cs = some (v, mid) ∧
      ((∃ mid', skipGap mid = ',' :: mid' ∧ readFields? n (fields.insert k v) mid' = some (x, rest)) ∨
        skipGap mid = '\x7d' :: rest ∧ x = object (fields.insert k v)) := by
  cases fuel with
  | zero => cases h
  | succ fuel =>
    rw [toList_renderText, readFields?] at h
    simp only [skipGap_cons (show isGap '"' = false by decide)] at h
    split at h
    · cases h
    · next k' mid htext =>
      obtain ⟨rfl, rfl⟩ := eq_of_readText? htext
      simp only [skipGap_cons (show isGap ':' = false by decide), List.reverse_nil, List.nil_append,
        String.ofList_toList] at h
      split at h
      · cases h
      · next v mid hvalue =>
        refine ⟨fuel, v, mid, hvalue, ?_⟩
        split at h
        · next mid' hskip => exact .inl ⟨mid', hskip, h⟩
        · next mid' hskip =>
          cases h
          exact .inr ⟨hskip, rfl⟩
        · cases h

theorem exists_head_render {j : Json} (h : isSpelled j = true) :
    ∃ c cs, (render .bare j).toList = c :: cs ∧ isGap c = false ∧ c ≠ ']' := by
  cases j with
  | null => exact ⟨'n', _, rfl, by decide, by decide⟩
  | bool b => cases b <;> exact ⟨_, _, rfl, by decide, by decide⟩
  | number numeral =>
    rw [isSpelled, isNumeral, Bool.and_eq_true] at h
    rw [render]
    cases hcs : numeral.toList with
    | nil => simp [hcs] at h
    | cons c cs =>
      have hc : isNumeralChar c = true := by
        rw [hcs, List.all_cons, Bool.and_eq_true] at h
        exact h.1.1
      refine ⟨c, cs, rfl, isGap_of_isNumeralChar hc, ?_⟩
      rintro rfl
      exact absurd hc (by decide)
  | string s => exact ⟨'"', _, by rw [render, renderText, String.toList_ofList, List.cons_append], by decide, by decide⟩
  | array items => exact ⟨'[', _, by rw [render, String.toList_append, String.toList_append]; rfl, by decide, by decide⟩
  | object fields => exact ⟨'\x7b', _, by rw [render, String.toList_append, String.toList_append]; rfl, by decide, by decide⟩

theorem readValue?_items (hgap : isGap c = false) (hc : c ≠ ']') (fuel : Nat) (cs : List Char) :
    readValue? (fuel + 1) ('[' :: c :: cs) = readItems? fuel [] (c :: cs) := by
  rw [readValue?, skipGap_cons (by decide)]
  simp only [skipGap_cons hgap]
  split
  · next heq =>
    cases heq
    exact absurd rfl hc
  · rfl

/-- What stands after an item that others follow, up to the closing bracket and beyond. -/
def after (close : Char) (texts : List String) (rest : List Char) : List Char :=
  match texts with
  | [] => close :: rest
  | t :: ts => ',' :: ((join "," (t :: ts)).toList ++ close :: rest)

theorem toList_join_append (close : Char) (t : String) (ts : List String) (rest : List Char) :
    (join "," (t :: ts)).toList ++ close :: rest = t.toList ++ after close ts rest := by
  cases ts with
  | nil => simp [after, join]
  | cons t' ts => simp [after, join, String.intercalate_cons_cons]

theorem not_clings_after {close : Char} (h : isNumeralChar close = false) (ts : List String) (rest : List Char) :
    ¬ Clings (after close ts rest) := by
  cases ts with
  | nil => exact not_clings_cons h rest
  | cons t ts => exact not_clings_cons (by decide) _

def ReadsItems (vs : List Json) : Prop :=
  ∀ {fuel : Nat} {before : List Json} {rest rest' : List Char} {x : Json}, vs ≠ [] →
    readItems? fuel before ((join "," (renderItems .bare vs)).toList ++ ']' :: rest) = some (x, rest') →
      x = array (before.reverse ++ normalItems vs) ∧ rest' = rest

def ReadsFields (fs : List (String × Json)) : Prop :=
  ∀ {fuel : Nat} {before : Dict Json} {rest rest' : List Char} {x : Json}, fs ≠ [] →
    readFields? fuel before ((join "," (renderFields .bare fs)).toList ++ '\x7d' :: rest) = some (x, rest') →
      x = object (normalFields before fs) ∧ rest' = rest

theorem readsItems_cons {v : Json} {vs : List Json} (hv : Reads v) (hvs : ReadsItems vs) : ReadsItems (v :: vs) := by
  intro fuel before rest rest' x _ hread
  rw [renderItems, toList_join_append] at hread
  obtain ⟨n, w, mid, hvalue, hmore⟩ := readItems?_cases hread
  have hnext : ¬ Clings mid := by
    rcases hmore with ⟨mid', hskip, -⟩ | ⟨hskip, -⟩ <;> exact not_clings_of_skipGap hskip (by decide)
  obtain ⟨rfl, rfl⟩ := (hv (not_clings_after (by decide) _ _) hvalue).resolve_right hnext
  cases vs with
  | nil =>
    rw [renderItems, after, skipGap_cons (by decide)] at hmore
    rcases hmore with ⟨mid', hskip, -⟩ | ⟨hskip, rfl⟩
    · cases hskip
    · cases hskip
      exact ⟨by simp [normalItems], rfl⟩
  | cons v' vs =>
    rw [renderItems, after, ← renderItems, skipGap_cons (by decide)] at hmore
    rcases hmore with ⟨mid', hskip, hrest⟩ | ⟨hskip, -⟩
    · cases hskip
      obtain ⟨rfl, rfl⟩ := hvs (List.cons_ne_nil _ _) hrest
      exact ⟨by simp [normalItems], rfl⟩
    · cases hskip

theorem readsFields_cons {k : String} {v : Json} (hv : Reads v) (hfs : ReadsFields fs) :
    ReadsFields ((k, v) :: fs) := by
  intro fuel before rest rest' x _ hread
  rw [renderFields, toList_join_append, String.toList_append, String.toList_append, List.append_assoc,
    List.append_assoc] at hread
  obtain ⟨n, w, mid, hvalue, hmore⟩ := readFields?_cases hread
  have hnext : ¬ Clings mid := by
    rcases hmore with ⟨mid', hskip, -⟩ | ⟨hskip, -⟩ <;> exact not_clings_of_skipGap hskip (by decide)
  obtain ⟨rfl, rfl⟩ := (hv (not_clings_after (by decide) _ _) hvalue).resolve_right hnext
  cases fs with
  | nil =>
    rw [renderFields, after, skipGap_cons (by decide)] at hmore
    rcases hmore with ⟨mid', hskip, -⟩ | ⟨hskip, rfl⟩
    · cases hskip
    · cases hskip
      exact ⟨by simp [normalFields], rfl⟩
  | cons f fs =>
    obtain ⟨k', v'⟩ := f
    rw [renderFields, after, ← renderFields, skipGap_cons (by decide)] at hmore
    rcases hmore with ⟨mid', hskip, hrest⟩ | ⟨hskip, -⟩
    · cases hskip
      obtain ⟨rfl, rfl⟩ := hfs (List.cons_ne_nil _ _) hrest
      exact ⟨by simp only [normalFields], rfl⟩
    · cases hskip

theorem reads_array (hspelled : itemsSpelled items = true) (h : ReadsItems items) : Reads (array items) := by
  cases items with
  | nil => exact reads_of_eq fun _ _ ↦ rfl
  | cons v vs =>
    intro fuel rest rest' x _ hread
    cases fuel with
    | zero => cases hread
    | succ fuel =>
      rw [itemsSpelled, Bool.and_eq_true] at hspelled
      obtain ⟨c, cs, hhead, hgap, hclose⟩ := exists_head_render hspelled.1
      have htext : (render .bare (array (v :: vs))).toList ++ rest =
          '[' :: ((join "," (renderItems .bare (v :: vs))).toList ++ ']' :: rest) := by simp [render]
      have hitems : readItems? fuel [] ((join "," (renderItems .bare (v :: vs))).toList ++ ']' :: rest) = some (x, rest') := by
        rw [htext] at hread
        rw [renderItems, toList_join_append, hhead, List.cons_append] at hread ⊢
        rwa [readValue?_items hgap hclose] at hread
      obtain ⟨rfl, rfl⟩ := h (List.cons_ne_nil _ _) hitems
      exact .inl ⟨by simp [normal], rfl⟩

theorem reads_object {fields : List (String × Json)} (h : ReadsFields fields) : Reads (object fields) := by
  cases fields with
  | nil => exact reads_of_eq fun _ _ ↦ rfl
  | cons f fs =>
    obtain ⟨k, v⟩ := f
    intro fuel rest rest' x _ hread
    cases fuel with
    | zero => cases hread
    | succ fuel =>
      have htext : (render .bare (object ((k, v) :: fs))).toList ++ rest =
          '\x7b' :: ((join "," (renderFields .bare ((k, v) :: fs))).toList ++ '\x7d' :: rest) := by simp [render]
      have hfields : readFields? fuel [] ((join "," (renderFields .bare ((k, v) :: fs))).toList ++ '\x7d' :: rest) =
          some (x, rest') := by
        rw [htext] at hread
        rw [renderFields, toList_join_append, String.toList_append, String.toList_append, List.append_assoc,
          List.append_assoc, toList_renderText] at hread ⊢
        exact hread
      obtain ⟨rfl, rfl⟩ := h (List.cons_ne_nil _ _) hfields
      exact .inl ⟨by rw [normal], rfl⟩

theorem reads_of_isSpelled : ∀ j, isSpelled j = true → Reads j := by
  refine (render.mutual_induct (fun j ↦ isSpelled j = true → Reads j)
    (fun fs ↦ fieldsSpelled fs = true → ReadsFields fs) (fun vs ↦ itemsSpelled vs = true → ReadsItems vs)
    ?null ?true ?false ?number ?string ?array ?object ?noItems ?items ?noFields ?fields).1
  case null => exact fun _ ↦ reads_of_eq fun _ _ ↦ rfl
  case true => exact fun _ ↦ reads_of_eq fun _ _ ↦ rfl
  case false =>
    intro b hb _
    cases b with
    | true => exact absurd rfl hb
    | false => exact reads_of_eq fun _ _ ↦ rfl
  case number => exact fun _ h ↦ reads_number h
  case string => exact fun s _ ↦ reads_string s
  case array => exact fun _ ih h ↦ reads_array h (ih h)
  case object => exact fun _ ih h ↦ reads_object (ih h)
  case noItems => exact fun _ _ _ _ _ _ hne ↦ absurd rfl hne
  case items =>
    intro v vs ihv ihvs h
    rw [itemsSpelled, Bool.and_eq_true] at h
    exact readsItems_cons (ihv h.1) (ihvs h.2)
  case noFields => exact fun _ _ _ _ _ _ hne ↦ absurd rfl hne
  case fields =>
    intro k v fs ihv ihfs h
    rw [fieldsSpelled, Bool.and_eq_true] at h
    exact readsFields_cons (ihv h.1) (ihfs h.2)

theorem eq_normal_of_read? {j v : Json} (hspelled : isSpelled j = true) (h : read? (render .bare j) = some v) :
    v = normal j := by
  rw [read?] at h
  split at h
  · next w rest hread =>
    split at h
    · next hend =>
      cases h
      have hclings : ¬ Clings rest := by
        rintro ⟨c, hc, hnumeral⟩
        cases rest with
        | nil => cases hc
        | cons d rest =>
          cases hc
          rw [skipGap_cons (isGap_of_isNumeralChar hnumeral)] at hend
          cases hend
      rw [← List.append_nil (render .bare j).toList] at hread
      exact ((reads_of_isSpelled j hspelled (by rintro ⟨c, hc, -⟩; cases hc) hread).resolve_right hclings).1
    · cases h
  · cases h

theorem find?_normalFields (h : (Dict.keys fs).Nodup) (k : String) (before : Dict Json) :
    Dict.find? k (normalFields before fs) = ((Dict.find? k fs).map normal).or (Dict.find? k before) := by
  induction fs generalizing before with
  | nil => rfl
  | cons f fs ih =>
    obtain ⟨k', v⟩ := f
    rw [Dict.keys, List.map_cons, List.nodup_cons] at h
    rw [normalFields, ih h.2, Dict.find?_insert, Dict.find?]
    by_cases hk : k' = k
    · subst hk
      simp [Dict.find?_eq_none_iff.2 h.1]
    · simp [hk]

open Machine

/-- A text inside brackets that is passed over as a whole: it opens what it closes, and holds no line break. -/
structure IsInset (cs : List Char) : Prop where
  scan : ∀ (word : List Char) (depth : Nat) (rest : List Char),
    scanWords ⟨some word, depth + 1, none⟩ (cs ++ rest) = scanWords ⟨some (cs.reverse ++ word), depth + 1, none⟩ rest
  unbroken : '\n' ∉ cs

namespace IsInset

theorem nil : IsInset [] := ⟨fun _ _ _ ↦ rfl, List.not_mem_nil⟩

theorem append (h : IsInset cs) (h' : IsInset ds) : IsInset (cs ++ ds) where
  scan word depth rest := by
    rw [List.append_assoc, h.scan, h'.scan, List.reverse_append, List.append_assoc]
  unbroken := by
    rw [List.mem_append, not_or]
    exact ⟨h.unbroken, h'.unbroken⟩

/-- A character that neither opens nor closes anything; blanks separate nothing inside brackets. -/
theorem singleton (h : c ∉ ['"', '\'', '[', ']', '\x7b', '\x7d', '\n']) : IsInset [c] where
  scan word depth rest := by
    simp only [List.mem_cons, List.not_mem_nil, or_false, not_or] at h
    obtain ⟨h₁, h₂, h₃, h₄, h₅, h₆, -⟩ := h
    rw [List.singleton_append, scanWords_unmarked rfl, if_neg (by simp)]
    simp [WordState.step, WordState.push, h₁, h₂, h₃, h₄, h₅, h₆]
  unbroken := by
    rw [List.mem_singleton]
    rintro rfl
    simp at h

theorem of_forall (h : ∀ c ∈ cs, IsInset [c]) : IsInset cs := by
  induction cs with
  | nil => exact nil
  | cons c cs ih =>
    rw [List.forall_mem_cons] at h
    exact h.1.append (ih h.2)

theorem enclose {a z : Char} (ha : a = '[' ∨ a = '\x7b') (hz : z = ']' ∨ z = '\x7d') (h : IsInset cs) :
    IsInset (a :: cs ++ [z]) where
  scan word depth rest := by
    have hopen : WordState.step ⟨some word, depth + 1, none⟩ a = .ok ⟨some (a :: word), depth + 1 + 1, none⟩ := by
      rcases ha with rfl | rfl <;> rfl
    have hclose (w : List Char) : WordState.step ⟨some w, depth + 1 + 1, none⟩ z = .ok ⟨some (z :: w), depth + 1, none⟩ := by
      rcases hz with rfl | rfl <;> rfl
    rw [List.cons_append, List.cons_append, List.append_assoc, List.singleton_append, scanWords_unmarked rfl, if_neg (by simp),
      hopen]
    dsimp only
    rw [h.scan, scanWords_unmarked rfl, if_neg (by simp), hclose]
    simp
  unbroken := by
    have hunbroken := h.unbroken
    rcases ha with rfl | rfl <;> rcases hz with rfl | rfl <;> simp [hunbroken]

end IsInset

def isBareChar (c : Char) : Bool := c != '"' && c != '\\' && c != '\n'

theorem isBareChar_of_mem_hexPadded {w n : Nat} (h : c ∈ hexPadded w n) : isBareChar c = true := by
  induction w generalizing n with
  | zero => cases h
  | succ w ih =>
    rw [hexPadded, List.mem_append, List.mem_singleton] at h
    rcases h with h | rfl
    · exact ih h
    · have hall : ∀ k : Fin 16, isBareChar (hexDigit k) = true := by decide
      exact hall ⟨n % 16, Nat.mod_lt n (by decide)⟩

/-- How a character is written in a quoted text: bare, or as a backslash, a character and bare ones after that. -/
def IsEscape (cs : List Char) : Prop :=
  (∃ d ds, cs = '\\' :: d :: ds ∧ d ≠ '\n' ∧ ∀ x ∈ ds, isBareChar x = true) ∨ ∃ c, cs = [c] ∧ isBareChar c = true

theorem isEscape_escapeChar (c : Char) : IsEscape (escapeChar .bare c) := by
  unfold escapeChar
  split
  · next hmark => exact .inl ⟨c, [], rfl, by rintro rfl; simp at hmark, by simp⟩
  · next hmark =>
    split
    · exact .inl ⟨'n', [], rfl, by decide, by simp⟩
    split
    · exact .inl ⟨'r', [], rfl, by decide, by simp⟩
    split
    · exact .inl ⟨'t', [], rfl, by decide, by simp⟩
    split
    · exact .inl ⟨'u', _, rfl, by decide, fun x ↦ isBareChar_of_mem_hexPadded⟩
    · next hline _ _ _ =>
      rw [not_or] at hmark
      exact .inr ⟨c, rfl, by simp [isBareChar, hmark, hline]⟩

theorem scanWords_bare (h : ∀ c ∈ cs, isBareChar c = true) (word : List Char) (depth : Nat)
    (rest : List Char) :
    scanWords ⟨some word, depth, some '"'⟩ (cs ++ rest) = scanWords ⟨some (cs.reverse ++ word), depth, some '"'⟩ rest := by
  induction cs generalizing word with
  | nil => rfl
  | cons c cs ih =>
    rw [List.forall_mem_cons] at h
    have hc := h.1
    simp only [isBareChar, Bool.and_eq_true, bne_iff_ne, ne_eq] at hc
    rw [List.cons_append, scanWords_marked rfl hc.1.2, if_neg hc.1.1]
    simp [WordState.push, ih h.2]

section Escapes

variable {escape : Char → List Char} (h : ∀ c, IsEscape (escape c))

include h

theorem scanWords_flatMap (word : List Char) (depth : Nat) (cs rest : List Char) :
    scanWords ⟨some word, depth, some '"'⟩ (cs.flatMap escape ++ rest) =
      scanWords ⟨some ((cs.flatMap escape).reverse ++ word), depth, some '"'⟩ rest := by
  induction cs generalizing word with
  | nil => rfl
  | cons c cs ih =>
    have hchar : scanWords ⟨some word, depth, some '"'⟩ (escape c ++ (cs.flatMap escape ++ rest)) =
        scanWords ⟨some ((escape c).reverse ++ word), depth, some '"'⟩ (cs.flatMap escape ++ rest) := by
      rcases h c with ⟨d, ds, heq, -, hds⟩ | ⟨d, heq, hd⟩
      · have hpair := scanWords_bare hds (d :: '\\' :: word) depth (cs.flatMap escape ++ rest)
        rw [heq]
        simpa [scanWords, WordState.push] using hpair
      · rw [heq]
        exact scanWords_bare (by simpa using hd) word depth _
    rw [List.flatMap_cons, List.append_assoc, hchar, ih, List.reverse_append, List.append_assoc]

theorem newline_notMem_flatMap (cs : List Char) : '\n' ∉ cs.flatMap escape := by
  intro hmem
  obtain ⟨c, -, hc⟩ := List.mem_flatMap.1 hmem
  rcases h c with ⟨d, ds, heq, hd, hds⟩ | ⟨d, heq, hbare⟩
  · rw [heq] at hc
    rcases List.mem_cons.1 hc with hc | hc
    · exact absurd hc (by decide)
    rcases List.mem_cons.1 hc with hc | hc
    · exact hd hc.symm
    · exact absurd (hds _ hc) (by decide)
  · rw [heq, List.mem_singleton] at hc
    subst hc
    exact absurd hbare (by decide)

end Escapes

theorem isInset_renderText (s : String) : IsInset (renderText .bare s).toList where
  scan word depth rest := by
    have hinside := scanWords_flatMap isEscape_escapeChar ('"' :: word) (depth + 1) s.toList ('"' :: rest)
    have hopen : WordState.step ⟨some word, depth + 1, none⟩ '"' = .ok ⟨some ('"' :: word), depth + 1, some '"'⟩ := rfl
    rw [toList_renderText, scanWords_unmarked rfl, if_neg (by simp), hopen]
    dsimp only
    rw [hinside, scanWords_marked rfl (by decide), if_pos rfl]
    simp [renderText, WordState.push]
  unbroken := by simp [renderText, newline_notMem_flatMap isEscape_escapeChar]

theorem IsInset.join {ts : List String} (h : ∀ t ∈ ts, IsInset t.toList) : IsInset (join "," ts).toList := by
  induction ts with
  | nil => exact .nil
  | cons t ts ih =>
    rw [List.forall_mem_cons] at h
    cases ts with
    | nil => simpa [Text.join] using h.1
    | cons t' ts =>
      have hcomma : IsInset [','] := .singleton (by decide)
      have hjoin := (h.1.append hcomma).append (ih h.2)
      simpa [Text.join, String.intercalate_cons_cons] using hjoin

theorem isInset_of_all (h : cs.all isNumeralChar = true) : IsInset cs := by
  rw [List.all_eq_true] at h
  refine .of_forall fun c hc ↦ .singleton fun hmem ↦ ?_
  have hnumeral := h c hc
  simp only [List.mem_cons, List.not_mem_nil, or_false] at hmem
  rcases hmem with rfl | rfl | rfl | rfl | rfl | rfl | rfl <;> exact absurd hnumeral (by decide)

theorem isInset_render_and_renderItems : (∀ j, isSpelled j = true → IsInset (render .bare j).toList) ∧
    (∀ fs, fieldsSpelled fs = true → ∀ t ∈ renderFields .bare fs, IsInset t.toList) ∧
    ∀ vs, itemsSpelled vs = true → ∀ t ∈ renderItems .bare vs, IsInset t.toList := by
  refine render.mutual_induct (fun j ↦ isSpelled j = true → IsInset (render .bare j).toList)
    (fun fs ↦ fieldsSpelled fs = true → ∀ t ∈ renderFields .bare fs, IsInset t.toList)
    (fun vs ↦ itemsSpelled vs = true → ∀ t ∈ renderItems .bare vs, IsInset t.toList)
    ?null ?true ?false ?number ?string ?array ?object ?noItems ?items ?noFields ?fields
  case null => exact fun _ ↦ isInset_of_all (by decide)
  case true => exact fun _ ↦ isInset_of_all (by decide)
  case false =>
    intro b hb _
    cases b with
    | true => exact absurd rfl hb
    | false => exact isInset_of_all (by decide)
  case number =>
    intro numeral h
    rw [isSpelled, isNumeral, Bool.and_eq_true] at h
    exact isInset_of_all h.1
  case string => exact fun s _ ↦ isInset_renderText s
  case array =>
    intro items ih h
    simpa [render] using (IsInset.join (ih h)).enclose (.inl rfl) (.inl rfl)
  case object =>
    intro fields ih h
    simpa [render] using (IsInset.join (ih h)).enclose (.inr rfl) (.inr rfl)
  case noItems => simp [renderItems]
  case items =>
    intro v vs ihv ihvs h
    rw [itemsSpelled, Bool.and_eq_true] at h
    rw [renderItems, List.forall_mem_cons]
    exact ⟨ihv h.1, ihvs h.2⟩
  case noFields => simp [renderFields]
  case fields =>
    intro k v fs ihv ihfs h
    rw [fieldsSpelled, Bool.and_eq_true] at h
    have hcolon : IsInset [':'] := .singleton (by decide)
    have hfield := ((isInset_renderText k).append hcolon).append (ihv h.1)
    rw [renderFields, List.forall_mem_cons]
    exact ⟨by simpa using hfield, ihfs h.2⟩

theorem splitWords_array (h : itemsSpelled items = true) :
    splitWords (render .bare (array items)) = .ok [render .bare (array items)] := by
  have hinside : IsInset (join "," (renderItems .bare items)).toList :=
    .join (isInset_render_and_renderItems.2.2 items h)
  have htext : (render .bare (array items)).toList = '[' :: ((join "," (renderItems .bare items)).toList ++ [']']) := by
    simp [render]
  have hopen : WordState.step {} '[' = .ok ⟨some ['['], 0 + 1, none⟩ := rfl
  rw [splitWords, htext, scanWords_unmarked rfl, if_neg (by simp), hopen]
  dsimp only
  rw [hinside.scan, ← String.ofList_toList (s := render .bare (array items)), htext]
  simp [scanWords, WordState.step, WordState.push, WordState.words]

open Decimal

theorem isNumeral_append (h : isNumeral cs = true) (h' : ds.all isNumeralChar = true) :
    isNumeral (cs ++ ds) = true := by
  cases cs with
  | nil => simp [isNumeral] at h
  | cons c cs =>
    simp only [isNumeral, List.all_cons, List.head?_cons, Option.any_some, Bool.and_eq_true] at h
    simp [isNumeral, h, h']

theorem all_of_isNumeral (h : isNumeral cs = true) : cs.all isNumeralChar = true := by
  rw [isNumeral, Bool.and_eq_true] at h
  exact h.1

theorem isNumeral_singleton (h : c.isDigit = true) : isNumeral [c] = true := by
  have hlow : c.isLower = false := by
    simp only [Char.isDigit, Bool.and_eq_true, decide_eq_true_eq, ge_iff_le, UInt32.le_iff_toNat_le] at h
    simp only [Char.isLower, Bool.and_eq_false_iff, decide_eq_false_iff_not, ge_iff_le, UInt32.le_iff_toNat_le]
    have h9 : '9'.val.toNat = 57 := rfl
    have ha : 'a'.val.toNat = 97 := rfl
    omega
  simp [isNumeral, isNumeralChar, Char.isAlphanum, h, hlow]

theorem isNumeral_of_digits (hne : cs ≠ []) (h : ∀ c ∈ cs, c.isDigit = true) : isNumeral cs = true := by
  cases cs with
  | nil => exact absurd rfl hne
  | cons c cs =>
    rw [List.forall_mem_cons] at h
    refine isNumeral_append (isNumeral_singleton h.1) (List.all_eq_true.2 fun d hd ↦ ?_)
    simp [isNumeralChar, Char.isAlphanum, h.2 d hd]

theorem isNumeral_toString (n : Nat) : isNumeral (toString n).toList = true :=
  isNumeral_of_digits (by simp) fun _ ↦ isDigit_of_mem_toString

theorem isNumeral_toString_int (n : Int) : isNumeral (toString n).toList = true := by
  cases n with
  | ofNat n => exact isNumeral_toString n
  | negSucc n =>
    have hsign : toString (Int.negSucc n) = "-" ++ toString (n + 1) := rfl
    rw [hsign, String.toList_append]
    exact isNumeral_append (by decide) (all_of_isNumeral (isNumeral_toString (n + 1)))

theorem all_zeros (n : Nat) : (zeros n).toList.all isNumeralChar = true := by
  rw [zeros, String.toList_ofList, List.all_eq_true]
  intro c hc
  rw [List.eq_of_mem_replicate hc]
  decide

theorem isNumeral_take (h : isNumeral cs = true) {n : Nat} (hn : 0 < n) : isNumeral (cs.take n) = true := by
  cases cs with
  | nil => simp [isNumeral] at h
  | cons c cs =>
    obtain ⟨n, rfl⟩ := Nat.exists_eq_add_one.2 hn
    simp only [isNumeral, List.all_cons, List.head?_cons, Option.any_some, Bool.and_eq_true] at h
    have htake : (cs.take n).all isNumeralChar = true :=
      List.all_eq_true.2 fun d hd ↦ List.all_eq_true.1 h.1.2 d (List.mem_of_mem_take hd)
    simp [isNumeral, h, htake]

theorem isNumeral_positional (h : isNumeral digits.toList = true) (point : Int) :
    isNumeral (positional digits point).toList = true := by
  rw [positional]
  split
  · simp only [String.toList_append]
    exact isNumeral_append (isNumeral_append (by decide) (all_zeros _)) (all_of_isNumeral h)
  · next hpoint =>
    split
    · rw [String.toList_append]
      exact isNumeral_append h (all_zeros _)
    · have hdrop : (digits.toList.drop point.toNat).all isNumeralChar = true :=
        List.all_eq_true.2 fun d hd ↦ List.all_eq_true.1 (all_of_isNumeral h) d (List.mem_of_mem_drop hd)
      simp only [String.toList_append, String.toList_ofList]
      exact isNumeral_append (isNumeral_append (isNumeral_take h (by omega)) (by decide)) hdrop

theorem isNumeral_mantissa (h : isNumeral digits.toList = true) :
    isNumeral (match digits.toList with
      | [] => ""
      | [d] => String.ofList [d]
      | d :: rest => String.ofList (d :: '.' :: rest)).toList = true := by
  split
  · next hdigits => simp [hdigits, isNumeral] at h
  · next hdigits => simpa [hdigits] using h
  · next d rest _ hdigits =>
    rw [hdigits] at h
    simp only [isNumeral, List.all_cons, List.head?_cons, Option.any_some, Bool.and_eq_true] at h
    have hpoint : isNumeralChar '.' = true := by decide
    simp [isNumeral, h, hpoint]

theorem isNumeral_scientific (style : Layout) (h : isNumeral digits.toList = true) (exponent : Int) :
    isNumeral (scientific style digits exponent).toList = true := by
  simp only [scientific, String.toList_append]
  refine isNumeral_append (isNumeral_append (isNumeral_append (isNumeral_mantissa h) ?_) ?_)
    (all_of_isNumeral (isNumeral_toString _))
  · split <;> decide
  · split <;> decide

theorem isNumeral_render (style : Layout) (f : Format) (c : Decimal.Class) : isNumeral (c.render style f).toList = true := by
  cases c with
  | nan =>
    have hword : isNumeral "NaN".toList = true := by decide
    exact hword
  | infinite negative =>
    have hword : isNumeral (if negative then "-Inf" else "+Inf").toList = true := by cases negative <;> decide
    exact hword
  | finite negative m e =>
    have hbody : isNumeral (if m = 0 then "0" else (shortest f m e).render style).toList = true := by
      split
      · decide
      · rw [Digits.render]
        split
        · exact isNumeral_scientific style (isNumeral_toString _) _
        · exact isNumeral_positional (isNumeral_toString _) _
    rw [Class.render, String.toList_append]
    cases negative with
    | true => exact isNumeral_append (by decide) (all_of_isNumeral hbody)
    | false => simpa using hbody

theorem isSpelled_toJson_and_toJsonList : (∀ (x : Datum) (j : Json), x.toJson = .ok j → isSpelled j = true) ∧
    (∀ (fields : List (String × Datum)) (fs : List (String × Json)), Datum.toJsonFields fields = .ok fs →
      fieldsSpelled fs = true) ∧
    ∀ (xs : List Datum) (vs : List Json), Datum.toJsonList xs = .ok vs → itemsSpelled vs = true := by
  refine Datum.toJson.mutual_induct _ _ _ ?null ?bool ?int ?finite ?infinite ?string ?stamped ?zoned ?list ?dict ?mixed
    ?noItems ?items ?noFields ?fields
  case null => rintro _ ⟨⟩; rfl
  case bool => rintro b _ ⟨⟩; rfl
  case int => rintro n _ ⟨⟩; exact isNumeral_toString_int n
  case finite =>
    intro x hx j h
    rw [Datum.toJson, if_pos hx] at h
    cases h
    exact isNumeral_render .json .double _
  case infinite =>
    intro x hx j h
    rw [Datum.toJson, if_neg hx] at h
    cases h
  case string => rintro s _ ⟨⟩; rfl
  case stamped => rintro stamp text _ ⟨⟩; rfl
  case zoned => rintro text _ ⟨⟩
  case list =>
    intro xs ih j h
    obtain ⟨vs, hxs, ⟨⟩⟩ := except_bind_eq_ok.1 h
    exact ih vs hxs
  case dict =>
    intro fields ih j h
    obtain ⟨fs, hfields, ⟨⟩⟩ := except_bind_eq_ok.1 h
    exact ih fs hfields
  case mixed => rintro fields _ ⟨⟩
  case noItems => rintro _ ⟨⟩; rfl
  case items =>
    intro x xs ihx ihxs vs h
    obtain ⟨v, hx, h⟩ := except_bind_eq_ok.1 h
    obtain ⟨vs, hxs, ⟨⟩⟩ := except_bind_eq_ok.1 h
    rw [itemsSpelled, ihx v hx, ihxs vs hxs]
    rfl
  case noFields => rintro _ ⟨⟩; rfl
  case fields =>
    intro k x fields ihx ihfields fs h
    obtain ⟨v, hx, h⟩ := except_bind_eq_ok.1 h
    obtain ⟨fs, hfields, ⟨⟩⟩ := except_bind_eq_ok.1 h
    rw [fieldsSpelled, ihx v hx, ihfields fs hfields]
    rfl

end Json

end CommandPack
