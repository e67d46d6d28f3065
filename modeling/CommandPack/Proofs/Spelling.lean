import Mathlib
import CommandPack.Tag.Notation
import CommandPack.Proofs.Encoding
import CommandPack.Proofs.Numerals

/-!
Tags as text. A tag with printable texts and plain keys reads back from its written form, whatever its numbers are.
-/

namespace CommandPack

open Text Decimal

variable {k : String}

theorem Dict.insert_last {α : Type} (a : α) {d : Dict α} (h : ∀ k' ∈ Dict.keys d, k' < k) :
    Dict.insert k a d = d ++ [(k, a)] := by
  have hnew : Dict.find? k d = none := Dict.find?_eq_none_iff.2 fun hk ↦ lt_irrefl k (h k hk)
  rw [insert, if_neg (by simp [has, hnew])]
  clear hnew
  induction d with
  | nil => rfl
  | cons e d ih =>
    rw [keys, List.map_cons, List.forall_mem_cons] at h
    rw [place, if_neg (lt_asymm h.1), ih h.2, List.cons_append]

namespace Tag

open Json (isNumeral isNumeralChar after toList_join_append)

variable {c : Char} {t : Tag} {cs rest w : List Char} {body : String} {fs : List (String × Tag)}

/-- A key that is written bare: it starts with no quote and holds nothing that ends a word. -/
def isPlainKey (k : String) : Bool :=
  k.toList.head?.any (fun c ↦ c != '"' && c != '\'') && k.toList.all (!endsWord ·)

mutual

/-- All texts of the tag are printable, and its keys plain and in order. -/
def isLegible : Tag → Bool
  | string s => s.toList.all isPrintable
  | list items => itemsLegible items
  | compound fields => decide ((Dict.keys fields).Pairwise (· < ·)) && fieldsLegible fields
  | _ => true

def itemsLegible : List Tag → Bool
  | [] => true
  | t :: ts => isLegible t && itemsLegible ts

def fieldsLegible : List (String × Tag) → Bool
  | [] => true
  | (k, t) :: fs => isPlainKey k && isLegible t && fieldsLegible fs

end

theorem skipGap_cons (h : isGap c = false) (cs : List Char) : skipGap (c :: cs) = c :: cs :=
  List.dropWhile_cons_of_neg (by simp [h])

def Stops (cs : List Char) : Prop := ∀ c ∈ cs.head?, endsWord c = true

theorem stops_cons (h : endsWord c = true) (cs : List Char) : Stops (c :: cs) := by
  intro d hd
  cases hd
  exact h

theorem span_word (hw : ∀ c ∈ w, endsWord c = false) (hrest : Stops rest) :
    (w ++ rest).takeWhile (!endsWord ·) = w ∧ (w ++ rest).dropWhile (!endsWord ·) = rest := by
  have hall : ∀ c ∈ w, (!endsWord c) = true := fun c hc ↦ by rw [hw c hc]; rfl
  rw [List.takeWhile_append_of_pos hall, List.dropWhile_append_of_pos hall]
  cases rest with
  | nil => simp
  | cons c rest =>
    have hc : endsWord c = true := hrest c rfl
    simp [hc]

theorem endsWord_of_isNumeralChar (h : isNumeralChar c = true) : endsWord c = false := by
  refine Bool.eq_false_iff.2 fun hends ↦ ?_
  simp only [endsWord, isGap, Bool.or_eq_true, beq_iff_eq] at hends
  rcases hends with (((rfl | rfl) | rfl) | rfl) | rfl | rfl <;> exact absurd h (by decide)

theorem isGap_eq_false_of_endsWord (h : endsWord c = false) : isGap c = false := by
  rw [endsWord, Bool.or_eq_false_iff] at h
  exact h.2

theorem isGap_of_isNumeralChar (h : isNumeralChar c = true) : isGap c = false :=
  isGap_eq_false_of_endsWord (endsWord_of_isNumeralChar h)

theorem readValue_numeral (hw : isNumeral w = true) (hrest : Stops rest) (fuel : ℕ) :
    readValue (fuel + 1) (w ++ rest) = .ok (ofWord w, rest) := by
  have hall := List.all_eq_true.1 (Json.all_of_isNumeral hw)
  obtain ⟨htake, hdrop⟩ := span_word (fun c hc ↦ endsWord_of_isNumeralChar (hall c hc)) hrest
  cases w with
  | nil => cases hw
  | cons c cs =>
    have hc : isNumeralChar c = true := hall c List.mem_cons_self
    rw [readValue, List.cons_append, skipGap_cons (isGap_of_isNumeralChar hc)]
    rw [List.cons_append] at htake hdrop
    split
    case h_7 => rw [htake, hdrop]
    case h_1 heq => cases heq
    all_goals
      next heq =>
        cases heq
        exact absurd hc (by decide)

theorem ofWord_of_isNumeral (h : isNumeral cs = true) :
    ofWord cs = ((match cs.reverse with
      | c :: d :: body => suffixed? (String.ofList (d :: body).reverse) c
      | _ => none) <|> unsuffixed? (String.ofList cs)).getD (string (String.ofList cs)) := by
  have hword {word : String} {c : Char} (hhead : word.toList.head? = some c) (hlow : c.isLower = true) :
      String.ofList cs ≠ word := by
    rintro rfl
    rw [String.toList_ofList] at hhead
    simp [isNumeral, hhead, hlow] at h
  exact (if_neg (hword (c := 't') rfl (by decide))).trans (if_neg (hword (c := 'f') rfl (by decide)))

theorem ofWord_suffixed {suffix : Char} (hbody : isNumeral body.toList = true) (hsuffix : isNumeralChar suffix = true)
    (h : suffixed? body suffix = some t) : ofWord (body.toList ++ [suffix]) = t := by
  obtain ⟨ds, d, hbody'⟩ : ∃ ds d, body.toList = ds ++ [d] := by
    have hne : body.toList ≠ [] := by
      intro heq
      rw [heq] at hbody
      cases hbody
    exact ⟨_, _, (List.dropLast_append_getLast hne).symm⟩
  rw [ofWord_of_isNumeral (Json.isNumeral_append hbody (by simpa using hsuffix))]
  have htext : String.ofList (d :: ds.reverse).reverse = body := by
    rw [List.reverse_cons, List.reverse_reverse, ← hbody', String.ofList_toList]
  have hreverse : (body.toList ++ [suffix]).reverse = suffix :: d :: ds.reverse := by simp [hbody']
  simp only [hreverse, htext, h]
  rfl

theorem suffixed?_eq_none (body : String) (h : c.isDigit = true ∨ c = '-') : suffixed? body c = none := by
  rw [suffixed?.eq_def]
  split
  case h_11 => rfl
  all_goals exact absurd h (by decide)

theorem ofWord_toString {n : ℤ} (hlow : -2 ^ 31 ≤ n) (hhigh : n < 2 ^ 31) :
    ofWord (toString n).toList = int (Int32.ofInt n) := by
  have hread : readInt? 32 (toString n) = some n := readInt?_toString hlow hhigh
  have htyped : (match (toString n).toList.reverse with
      | c :: d :: body => suffixed? (String.ofList (d :: body).reverse) c
      | _ => none) = none := by
    split
    · next c d body heq =>
      refine suffixed?_eq_none _ (isDigit_or_minus_of_mem_toString (n := n) ?_)
      rw [← List.mem_reverse, heq]
      exact List.mem_cons_self
    · rfl
  rw [ofWord_of_isNumeral (Json.isNumeral_toString_int n), htyped, String.ofList_toList, unsuffixed?, hread]
  rfl

theorem isEscape_quoted (c : Char) : Json.IsEscape (escapeChar '"' c) := by
  unfold escapeChar
  split
  · next hmark => exact .inl ⟨c, [], rfl, by rintro rfl; simp at hmark, by simp⟩
  next hmark =>
  split
  · next hprint =>
    rw [not_or] at hmark
    refine .inr ⟨c, rfl, ?_⟩
    have hline : c ≠ '\n' := by
      rintro rfl
      rw [isPrintable_newline] at hprint
      cases hprint
    simp [Json.isBareChar, hmark, hline]
  split
  · next l hletter =>
    refine .inl ⟨l, [], rfl, ?_, by simp⟩
    rintro rfl
    rw [controlLetter?] at hletter
    split at hletter <;> simp at hletter
  split
  · exact .inl ⟨'x', _, rfl, by decide, fun x ↦ Json.isBareChar_of_mem_hexPadded⟩
  split
  · exact .inl ⟨'u', _, rfl, by decide, fun x ↦ Json.isBareChar_of_mem_hexPadded⟩
  · exact .inl ⟨'U', _, rfl, by decide, fun x ↦ Json.isBareChar_of_mem_hexPadded⟩

/-- What is kept of a written character: all but the backslash of an escape. -/
def kept (c : Char) : List Char :=
  match escapeChar '"' c with
  | '\\' :: cs => cs
  | cs => cs

theorem kept_of_isPrintable (h : isPrintable c = true) : kept c = [c] := by
  rw [kept, escapeChar]
  by_cases hmark : c = '"' ∨ c = '\\'
  · rw [if_pos hmark]
    rfl
  · rw [if_neg hmark, if_pos h]
    split
    · next heq => simp_all
    · rfl

theorem readQuoted_bare (h : ∀ c ∈ cs, Json.isBareChar c = true) (acc rest : List Char) :
    readQuoted '"' acc (cs ++ rest) = readQuoted '"' (cs.reverse ++ acc) rest := by
  induction cs generalizing acc with
  | nil => rfl
  | cons c cs ih =>
    rw [List.forall_mem_cons] at h
    have hc := h.1
    simp only [Json.isBareChar, Bool.and_eq_true, bne_iff_ne, ne_eq] at hc
    rw [List.cons_append, readQuoted, if_neg hc.1.1, ih h.2]
    · simp
    · simp [hc.1.2]

theorem readQuoted_flatMap (acc cs rest : List Char) :
    readQuoted '"' acc (cs.flatMap (escapeChar '"') ++ '"' :: rest) =
      .ok (String.ofList (acc.reverse ++ cs.flatMap kept), rest) := by
  induction cs generalizing acc with
  | nil => simp [readQuoted]
  | cons c cs ih =>
    have hchar (more : List Char) :
        readQuoted '"' acc (escapeChar '"' c ++ more) = readQuoted '"' ((kept c).reverse ++ acc) more := by
      rcases isEscape_quoted c with ⟨d, ds, heq, -, hds⟩ | ⟨d, heq, hd⟩
      · have hkept : kept c = d :: ds := by
          rw [kept, heq]
          rfl
        rw [heq, hkept, List.cons_append, List.cons_append, readQuoted, readQuoted_bare hds]
        simp
      · have hkept : kept c = [d] := by
          rw [kept, heq]
          split
          · next hbackslash =>
            cases hbackslash
            exact absurd hd (by decide)
          · rfl
        rw [heq, hkept]
        exact readQuoted_bare (by simpa using hd) acc more
    rw [List.flatMap_cons, List.append_assoc, hchar, ih]
    simp

theorem toList_quote_append (s : String) (rest : List Char) :
    (quote s).toList ++ rest = '"' :: (s.toList.flatMap (escapeChar '"') ++ '"' :: rest) := by
  simp [quote, encode]

theorem readValue_quote (s : String) (rest : List Char) (fuel : ℕ) :
    readValue (fuel + 1) ((quote s).toList ++ rest) = .ok (string (String.ofList (s.toList.flatMap kept)), rest) := by
  rw [toList_quote_append, readValue, skipGap_cons (by decide)]
  simp only [readQuoted_flatMap]
  rfl

theorem flatMap_kept (h : ∀ c ∈ cs, isPrintable c = true) : cs.flatMap kept = cs := by
  induction cs with
  | nil => rfl
  | cons c cs ih =>
    rw [List.forall_mem_cons] at h
    rw [List.flatMap_cons, kept_of_isPrintable h.1, ih h.2, List.singleton_append]

/-- The tag is read from the front of a text, with fuel for two steps a character. -/
def Reads (t : Tag) : Prop :=
  ∀ (fuel : ℕ) (rest : List Char), 2 * (render t).length ≤ fuel → Stops rest →
    readValue fuel ((render t).toList ++ rest) = .ok (t, rest)

theorem reads_of_isNumeral (hword : isNumeral (render t).toList = true) (h : ofWord (render t).toList = t) :
    Reads t := by
  intro fuel rest hfuel hrest
  have hlength : 0 < (render t).length := by
    rw [← String.length_toList, List.length_pos_iff]
    intro hnil
    rw [hnil] at hword
    cases hword
  obtain ⟨n, rfl⟩ := Nat.exists_eq_add_of_le' (show 1 ≤ fuel by omega)
  rw [readValue_numeral hword hrest, h]

theorem reads_suffixed (suffix : Char) (htext : render t = body ++ String.ofList [suffix])
    (hbody : isNumeral body.toList = true) (hsuffix : isNumeralChar suffix = true)
    (h : suffixed? body suffix = some t) : Reads t := by
  have hlist : (render t).toList = body.toList ++ [suffix] := by rw [htext, String.toList_append, String.toList_ofList]
  refine reads_of_isNumeral ?_ ?_ <;> rw [hlist]
  · exact Json.isNumeral_append hbody (by simpa using hsuffix)
  · exact ofWord_suffixed hbody hsuffix h

theorem reads_byte (n : Int8) : Reads (byte n) := by
  refine reads_suffixed 'b' rfl (Json.isNumeral_toString_int _) (by decide) ?_
  have hread : readInt? 8 (toString n.toInt) = some n.toInt := readInt?_toString n.le_toInt n.toInt_lt
  show (readInt? 8 (toString n.toInt)).map _ = _
  rw [hread, Option.map_some, Int8.ofInt_toInt]

theorem reads_short (n : Int16) : Reads (short n) := by
  refine reads_suffixed 's' rfl (Json.isNumeral_toString_int _) (by decide) ?_
  have hread : readInt? 16 (toString n.toInt) = some n.toInt := readInt?_toString n.le_toInt n.toInt_lt
  show (readInt? 16 (toString n.toInt)).map _ = _
  rw [hread, Option.map_some, Int16.ofInt_toInt]

theorem reads_long (n : Int64) : Reads (long n) := by
  refine reads_suffixed 'L' rfl (Json.isNumeral_toString_int _) (by decide) ?_
  have hread : readInt? 64 (toString n.toInt) = some n.toInt := readInt?_toString n.le_toInt n.toInt_lt
  show (readInt? 64 (toString n.toInt)).map _ = _
  rw [hread, Option.map_some, Int64.ofInt_toInt]

theorem reads_int (n : Int32) : Reads (int n) := by
  refine reads_of_isNumeral ?_ ?_ <;> rw [render]
  · exact Json.isNumeral_toString_int n.toInt
  · rw [ofWord_toString n.le_toInt n.toInt_lt, Int32.ofInt_toInt]

theorem reads_float (x : Float32) : Reads (float x) := by
  refine reads_suffixed 'f' rfl (Json.isNumeral_render _ _ _) (by decide) ?_
  show (readSingle? (renderSingle .plain x)).map _ = _
  rw [readSingle?_renderSingle, Option.map_some]

theorem reads_double (x : Float) : Reads (double x) := by
  refine reads_suffixed 'd' rfl (Json.isNumeral_render _ _ _) (by decide) ?_
  show (readDouble? (renderDouble .plain x)).map _ = _
  rw [readDouble?_renderDouble, Option.map_some]

theorem reads_string {s : String} (h : ∀ c ∈ s.toList, isPrintable c = true) : Reads (string s) := by
  intro fuel rest hfuel _
  have hlength : 0 < (quote s).length := by
    rw [← String.length_toList, List.length_pos_iff, ← List.append_nil (quote s).toList, toList_quote_append]
    exact List.cons_ne_nil _ _
  rw [render] at hfuel
  obtain ⟨n, rfl⟩ := Nat.exists_eq_add_of_le' (show 1 ≤ fuel by omega)
  rw [render, readValue_quote, flatMap_kept h, String.ofList_toList]

/-- A text that an item of a list can start with: with no blank, no closing bracket and no mark of a typed list. -/
structure IsItemStart (cs : List Char) : Prop where
  gap : skipGap cs = cs
  mark : skipItemType cs = cs
  open_ : cs.head? ≠ some ']'

theorem skipItemType_cons (h : ¬ (c = 'B' ∨ c = 'I' ∨ c = 'L')) (cs : List Char) :
    skipItemType (c :: cs) = c :: cs := by
  rw [skipItemType.eq_def]
  split
  · next heq =>
    cases heq
    exact if_neg h
  · rfl

theorem isItemStart_bracket (h : c = '"' ∨ c = '[' ∨ c = '\x7b') (cs : List Char) : IsItemStart (c :: cs) where
  gap := skipGap_cons (by rcases h with rfl | rfl | rfl <;> decide) cs
  mark := skipItemType_cons (by rcases h with rfl | rfl | rfl <;> decide) cs
  open_ := by
    rintro ⟨⟩
    rcases h with h | h | h <;> cases h

theorem isItemStart_numeral (h : isNumeral w = true) (hc : c ≠ ';') (rest : List Char) :
    IsItemStart (w ++ c :: rest) := by
  have hall := List.all_eq_true.1 (Json.all_of_isNumeral h)
  cases w with
  | nil => cases h
  | cons d w =>
    have hd : isNumeralChar d = true := hall d List.mem_cons_self
    refine ⟨skipGap_cons (isGap_of_isNumeralChar hd) _, ?_, ?_⟩
    · rw [skipItemType.eq_def]
      split
      · next heq =>
        cases w with
        | nil =>
          cases heq
          exact absurd rfl hc
        | cons d' w =>
          cases heq
          exact absurd (hall ';' (by simp)) (by decide)
      · rfl
    · rintro ⟨⟩
      exact absurd hd (by decide)

theorem isItemStart_render (t : Tag) (hc : c ≠ ';') (rest : List Char) :
    IsItemStart ((render t).toList ++ c :: rest) := by
  have hsuffixed {body suffix : String} (hbody : isNumeral body.toList = true)
      (hsuffix : suffix.toList.all isNumeralChar = true) : IsItemStart ((body ++ suffix).toList ++ c :: rest) := by
    rw [String.toList_append]
    exact isItemStart_numeral (Json.isNumeral_append hbody hsuffix) hc rest
  cases t with
  | byte n => exact hsuffixed (Json.isNumeral_toString_int _) (by decide)
  | short n => exact hsuffixed (Json.isNumeral_toString_int _) (by decide)
  | int n =>
    rw [render]
    exact isItemStart_numeral (Json.isNumeral_toString_int _) hc rest
  | long n => exact hsuffixed (Json.isNumeral_toString_int _) (by decide)
  | float x => exact hsuffixed (Json.isNumeral_render _ _ _) (by decide)
  | double x => exact hsuffixed (Json.isNumeral_render _ _ _) (by decide)
  | string s =>
    rw [render, toList_quote_append]
    exact isItemStart_bracket (.inl rfl) _
  | list items =>
    rw [render, String.toList_append, String.toList_append]
    exact isItemStart_bracket (.inr (.inl rfl)) _
  | compound fields =>
    rw [render, String.toList_append, String.toList_append]
    exact isItemStart_bracket (.inr (.inr rfl)) _

theorem stops_after {close : Char} (h : endsWord close = true) (ts : List String) (rest : List Char) :
    Stops (after close ts rest) := by
  cases ts with
  | nil => exact stops_cons h rest
  | cons t ts => exact stops_cons (by decide) _

def ReadsItems (ts : List Tag) : Prop :=
  ∀ (fuel : ℕ) (before : List Tag) (rest : List Char), ts ≠ [] →
    2 * (join "," (renderItems ts)).length + 2 ≤ fuel →
      readItems fuel before ((join "," (renderItems ts)).toList ++ ']' :: rest) = .ok (list (before.reverse ++ ts), rest)

def ReadsFields (fs : List (String × Tag)) : Prop :=
  ∀ (fuel : ℕ) (before : Dict Tag) (rest : List Char), fs ≠ [] → (Dict.keys (before ++ fs)).Pairwise (· < ·) →
    2 * (join "," (renderFields fs)).length + 2 ≤ fuel →
      readFields fuel before ((join "," (renderFields fs)).toList ++ '\x7d' :: rest) = .ok (compound (before ++ fs), rest)

theorem length_join_cons (t t' : String) (ts : List String) :
    (join "," (t :: t' :: ts)).length = t.length + 1 + (join "," (t' :: ts)).length := by
  simp only [join, String.intercalate_cons_cons, String.length_append]
  rfl

theorem readsItems_cons {ts : List Tag} (ht : Reads t) (hts : ReadsItems ts) : ReadsItems (t :: ts) := by
  intro fuel before rest _ hfuel
  obtain ⟨n, rfl⟩ := Nat.exists_eq_add_of_le' (show 1 ≤ fuel by omega)
  rw [renderItems] at hfuel
  rw [renderItems, toList_join_append, readItems]
  cases ts with
  | nil =>
    have hlength : (join "," (render t :: renderItems [])).length = (render t).length := by simp [renderItems, join]
    rw [ht n _ (by omega) (stops_after (by decide) _ _)]
    simp [renderItems, after, skipGap_cons, isGap, bind, Except.bind]
  | cons t' ts =>
    have hlength := length_join_cons (render t) (render t') (renderItems ts)
    have hnext := hts n (t :: before) rest (List.cons_ne_nil _ _)
    rw [renderItems] at hfuel hnext
    rw [ht n _ (by omega) (stops_after (by decide) _ _)]
    simp only [renderItems, after, bind, Except.bind, skipGap_cons (show isGap ',' = false by decide)]
    rw [hnext (by omega)]
    simp

theorem toList_plainKey (h : isPlainKey k = true) :
    ∃ c cs, k.toList = c :: cs ∧ endsWord c = false ∧ c ≠ '"' ∧ c ≠ '\'' := by
  rw [isPlainKey, Bool.and_eq_true] at h
  cases hk : k.toList with
  | nil => simp [hk] at h
  | cons c cs =>
    rw [hk] at h
    simp only [List.head?_cons, Option.any_some, Bool.and_eq_true, bne_iff_ne, ne_eq, List.all_cons, Bool.not_eq_true'] at h
    exact ⟨c, cs, rfl, h.2.1, h.1.1, h.1.2⟩

theorem readKey_append (h : isPlainKey k = true) (rest : List Char) :
    readKey (k.toList ++ ':' :: rest) = .ok (k, ':' :: rest) := by
  obtain ⟨c, cs, hk, hends, hdouble, hsingle⟩ := toList_plainKey h
  have hall : ∀ d ∈ k.toList, endsWord d = false := by
    rw [isPlainKey, Bool.and_eq_true, List.all_eq_true] at h
    exact fun d hd ↦ by simpa using h.2 d hd
  obtain ⟨htake, hdrop⟩ := span_word hall (stops_cons (by decide) rest : Stops (':' :: rest))
  have hne : k.isEmpty = false := by
    rw [Bool.eq_false_iff, ne_eq, String.isEmpty_iff]
    rintro rfl
    cases hk
  have hskip : skipGap (k.toList ++ ':' :: rest) = k.toList ++ ':' :: rest := by
    rw [hk, List.cons_append, skipGap_cons (isGap_eq_false_of_endsWord hends)]
  have hquote {d : Char} {more : List Char} (hd : d = '"' ∨ d = '\'') : k.toList ++ ':' :: rest ≠ d :: more := by
    rw [hk, List.cons_append]
    rintro ⟨⟩
    exact hd.elim hdouble hsingle
  rw [readKey, hskip]
  split
  · next heq =>
    split at heq
    · next hlist => exact absurd hlist (hquote (.inl rfl))
    · next hlist => exact absurd hlist (hquote (.inr rfl))
    · cases heq
  · next heq =>
    split at heq
    · next hlist => exact absurd hlist (hquote (.inl rfl))
    · next hlist => exact absurd hlist (hquote (.inr rfl))
    · rw [htake, hdrop, String.ofList_toList] at heq
      cases heq
      simp [hne]

theorem readsFields_cons (hk : isPlainKey k = true) (ht : Reads t) (hfs : ReadsFields fs) :
    ReadsFields ((k, t) :: fs) := by
  intro fuel before rest _ hkeys hfuel
  obtain ⟨n, rfl⟩ := Nat.exists_eq_add_of_le' (show 1 ≤ fuel by omega)
  have hinsert : Dict.insert k t before = before ++ [(k, t)] := by
    refine Dict.insert_last t fun k' hk' ↦ ?_
    rw [Dict.keys, List.map_append, List.pairwise_append] at hkeys
    exact hkeys.2.2 k' hk' k (by simp)
  have hfield (more : List Char) : (k ++ ":" ++ render t).toList ++ more = k.toList ++ ':' :: ((render t).toList ++ more) := by
    simp
  have hfieldLength : (k ++ ":" ++ render t).length = k.length + 1 + (render t).length := by
    rw [String.length_append, String.length_append]
    rfl
  have hcolon (more : List Char) : expectChar ':' (':' :: more) = .ok more := by
    simp [expectChar, skipGap_cons (show isGap ':' = false by decide)]
  rw [renderFields] at hfuel
  rw [renderFields, toList_join_append, hfield, readFields, readKey_append hk]
  cases fs with
  | nil =>
    have hlength : (join "," ((k ++ ":" ++ render t) :: renderFields [])).length = (k ++ ":" ++ render t).length := by
      simp [renderFields, join]
    simp only [bind, Except.bind, hcolon]
    rw [ht n _ (by omega) (stops_after (by decide) _ _)]
    simp [renderFields, after, skipGap_cons (show isGap '\x7d' = false by decide), hinsert]
  | cons f fs =>
    obtain ⟨k', t'⟩ := f
    have hlength := length_join_cons (k ++ ":" ++ render t) (k' ++ ":" ++ render t') (renderFields fs)
    have hnext := hfs n (before ++ [(k, t)]) rest (List.cons_ne_nil _ _) (by simpa using hkeys)
    rw [renderFields] at hfuel hnext
    simp only [bind, Except.bind, hcolon]
    rw [ht n _ (by omega) (stops_after (by decide) _ _)]
    simp only [renderFields, after, skipGap_cons (show isGap ',' = false by decide), hinsert]
    rw [hnext (by omega)]
    simp

theorem reads_list {items : List Tag} (h : ReadsItems items) : Reads (list items) := by
  intro fuel rest hfuel _
  have htext : (render (list items)).toList ++ rest = '[' :: ((join "," (renderItems items)).toList ++ ']' :: rest) := by
    simp [render]
  have hlength : (render (list items)).length = (join "," (renderItems items)).length + 2 := by
    rw [render, String.length_append, String.length_append, Nat.add_comm "[".length]
    rfl
  obtain ⟨n, rfl⟩ := Nat.exists_eq_add_of_le' (show 1 ≤ fuel by omega)
  rw [htext, readValue, skipGap_cons (by decide)]
  cases items with
  | nil =>
    simp [renderItems, join, skipItemType_cons (show ¬ (']' = 'B' ∨ ']' = 'I' ∨ ']' = 'L') by decide),
      skipGap_cons (show isGap ']' = false by decide)]
  | cons t ts =>
    have hstart : IsItemStart ((join "," (renderItems (t :: ts))).toList ++ ']' :: rest) := by
      rw [renderItems, toList_join_append]
      cases ts with
      | nil => exact isItemStart_render t (by decide) _
      | cons t' ts => exact isItemStart_render t (by decide) _
    simp only [hstart.mark, hstart.gap]
    split
    · next heq => exact absurd (by rw [heq]; rfl) hstart.open_
    · rw [h n [] rest (List.cons_ne_nil _ _) (by omega)]
      rfl

theorem reads_compound {fields : List (String × Tag)} (hkeys : (Dict.keys fields).Pairwise (· < ·))
    (hplain : ∀ k ∈ Dict.keys fields, isPlainKey k = true) (h : ReadsFields fields) : Reads (compound fields) := by
  intro fuel rest hfuel _
  have htext : (render (compound fields)).toList ++ rest =
      '\x7b' :: ((join "," (renderFields fields)).toList ++ '\x7d' :: rest) := by
    simp [render]
  have hlength : (render (compound fields)).length = (join "," (renderFields fields)).length + 2 := by
    rw [render, String.length_append, String.length_append, Nat.add_comm "\x7b".length]
    rfl
  obtain ⟨n, rfl⟩ := Nat.exists_eq_add_of_le' (show 1 ≤ fuel by omega)
  rw [htext, readValue, skipGap_cons (by decide)]
  cases fields with
  | nil => simp [renderFields, join, skipGap_cons (show isGap '\x7d' = false by decide)]
  | cons f fs =>
    obtain ⟨k, t⟩ := f
    obtain ⟨c, cs, hk, hends, -, -⟩ := toList_plainKey (hplain k (by simp [Dict.keys]))
    have hstart : ∃ cs, (join "," (renderFields ((k, t) :: fs))).toList ++ '\x7d' :: rest = c :: cs := by
      rw [renderFields, toList_join_append]
      simp [hk]
    obtain ⟨cs', hcs'⟩ := hstart
    have hskip : skipGap ((join "," (renderFields ((k, t) :: fs))).toList ++ '\x7d' :: rest) =
        (join "," (renderFields ((k, t) :: fs))).toList ++ '\x7d' :: rest := by
      rw [hcs', skipGap_cons (isGap_eq_false_of_endsWord hends)]
    simp only [hskip]
    split
    · next heq =>
      rw [hcs'] at heq
      cases heq
      exact absurd hends (by decide)
    · rw [h n [] rest (List.cons_ne_nil _ _) (by simpa using hkeys) (by omega)]
      rfl

theorem isPlainKey_of_fieldsLegible (h : fieldsLegible fs = true) : ∀ k ∈ Dict.keys fs, isPlainKey k = true := by
  induction fs with
  | nil => simp [Dict.keys]
  | cons f fs ih =>
    rw [fieldsLegible, Bool.and_eq_true, Bool.and_eq_true] at h
    rw [Dict.keys, List.map_cons, List.forall_mem_cons]
    exact ⟨h.1.1, ih h.2⟩

/-- Every legible tag is read from its written form, by induction on the tag. -/
theorem reads_and_readsItems : (∀ t, isLegible t = true → Reads t) ∧ (∀ fs, fieldsLegible fs = true → ReadsFields fs) ∧
    ∀ ts, itemsLegible ts = true → ReadsItems ts := by
  refine render.mutual_induct (fun t ↦ isLegible t = true → Reads t) (fun fs ↦ fieldsLegible fs = true → ReadsFields fs)
    (fun ts ↦ itemsLegible ts = true → ReadsItems ts)
    ?byte ?short ?int ?long ?float ?double ?string ?list ?compound ?noItems ?items ?noFields ?fields
  case byte => exact fun n _ ↦ reads_byte n
  case short => exact fun n _ ↦ reads_short n
  case int => exact fun n _ ↦ reads_int n
  case long => exact fun n _ ↦ reads_long n
  case float => exact fun x _ ↦ reads_float x
  case double => exact fun x _ ↦ reads_double x
  case string =>
    intro s h
    rw [isLegible, List.all_eq_true] at h
    exact reads_string h
  case list =>
    intro items ih h
    exact reads_list (ih h)
  case compound =>
    intro fields ih h
    rw [isLegible, Bool.and_eq_true, decide_eq_true_eq] at h
    exact reads_compound h.1 (isPlainKey_of_fieldsLegible h.2) (ih h.2)
  case noItems => exact fun _ _ _ _ hne ↦ absurd rfl hne
  case items =>
    intro t ts iht ihts h
    rw [itemsLegible, Bool.and_eq_true] at h
    exact readsItems_cons (iht h.1) (ihts h.2)
  case noFields => exact fun _ _ _ _ hne ↦ absurd rfl hne
  case fields =>
    intro k t fs iht ihfs h
    rw [fieldsLegible, Bool.and_eq_true, Bool.and_eq_true] at h
    exact readsFields_cons h.1.1 (iht h.1.2) (ihfs h.2)

theorem Reads.read_eq (h : Reads t) : read (render t) = .ok t := by
  have hvalue := h (2 * (render t).length + 2) [] (by omega) (by rintro c ⟨⟩)
  rw [List.append_nil] at hvalue
  rw [read, hvalue]
  rfl

/-- A legible tag reads back from its written form. -/
theorem read_render {t : Tag} (h : isLegible t = true) : read (render t) = .ok t := (reads_and_readsItems.1 t h).read_eq

/-- Numbers of every type, infinite ones among them, texts with quotes and backslashes, and empty and nested trees. -/
theorem read_render_nested :
    let t := compound [("Items", list [compound [], compound [("id", string "minecraft:\"a\\b'é\""), ("n", byte (-128))]]),
      ("Pos", list [double (-0.1), double (Float.ofBits 0x7ff0000000000000), float 1.5e-7, list []]),
      ("b\"c", list [long (-9223372036854775808), short 7, int (-1), string ""])]
    isLegible t = true ∧ read (render t) = .ok t := by
  intro t
  have h : isLegible t = true := by decide +kernel
  exact ⟨h, read_render h⟩

end Tag

end CommandPack
