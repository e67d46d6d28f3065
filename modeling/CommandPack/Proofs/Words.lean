import Mathlib.Tactic.Common
import Mathlib.Data.List.Forall2
import CommandPack.Machine.World

/-!
The words of a command that is put together from texts with blanks between them.
-/

namespace CommandPack.Machine

open Text

theorem scanWords_unmarked {st : WordState} (hm : st.mark = none) (c : Char) (cs : List Char) :
    scanWords st (c :: cs) =
      if (c = ' ' ∨ c = '\t') ∧ (st.depth = 0 ∨ st.word.isNone) then
        (st.words ++ ·) <$> scanWords { st with word := none } cs
      else
        match st.step c with
        | .error e => .error e
        | .ok st => scanWords st cs := by
  have hscan := scanWords.eq_def st (c :: cs)
  simp only [hm] at hscan ⊢
  exact hscan

theorem scanWords_marked {st : WordState} {mark : Char} (hm : st.mark = some mark) {c : Char}
    (hc : c ≠ '\\') (cs : List Char) :
    scanWords st (c :: cs) =
      if c = mark then scanWords { st.push c with mark := none } cs else scanWords (st.push c) cs := by
  rw [scanWords.eq_def]
  simp only [hm, hc, if_false]

/-- A text that splits leaves no bracket and no quotation open, so a blank after it separates. -/
theorem scanWords_append (st : WordState) (cs ds : List Char) {ws : List String}
    (h : scanWords st cs = .ok ws) :
    scanWords st (cs ++ ' ' :: ds) = (ws ++ ·) <$> scanWords {} ds := by
  fun_induction scanWords st cs generalizing ws with
  | case1 st hm => cases h
  | case2 st hm hd => cases h
  | case3 st hm hd =>
    obtain ⟨word, depth, mark⟩ := st
    simp only [Bool.not_eq_true, Option.isSome_eq_false_iff, Option.isNone_iff_eq_none] at hm
    simp only [ne_eq, not_not] at hd
    subst hm hd
    cases h
    simp [scanWords]
  | case4 => cases h
  | case5 st mark hm d cs ih => simpa [scanWords, hm] using ih h
  | case6 st cs mark hm hne ih =>
    rw [List.cons_append, scanWords_marked hm hne, if_pos rfl]
    exact ih h
  | case7 st c cs mark hm hb hc ih =>
    rw [List.cons_append, scanWords_marked hm hb, if_neg hc]
    exact ih h
  | case8 st c cs hm hblank ih =>
    rw [List.cons_append, scanWords_unmarked hm, if_pos hblank]
    cases hrest : scanWords { st with word := none } cs with
    | error e => simp [hrest] at h
    | ok rest =>
      simp only [hrest] at h
      cases h
      rw [ih hrest]
      cases scanWords {} ds <;> simp
  | case9 => simp_all
  | case10 st c cs hm hblank st' hstep ih =>
    rw [List.cons_append, scanWords_unmarked hm, if_neg hblank, hstep]
    exact ih h

theorem splitWords_append {a b : String} {ws ws' : List String} (ha : splitWords a = .ok ws)
    (hb : splitWords b = .ok ws') : splitWords (a ++ " " ++ b) = .ok (ws ++ ws') := by
  have htext : (a ++ " " ++ b).toList = a.toList ++ ' ' :: b.toList := by simp
  simp only [splitWords] at ha hb ⊢
  rw [htext, scanWords_append {} a.toList b.toList ha, hb]
  rfl

theorem splitWords_join {ts : List String} {wss : List (List String)}
    (h : List.Forall₂ (fun t ws ↦ splitWords t = .ok ws) ts wss) :
    splitWords (join " " ts) = .ok wss.flatten := by
  induction h with
  | nil => rfl
  | @cons t ws ts wss ht hts ih =>
    cases hts with
    | nil => simpa [join] using ht
    | cons ht' hts' =>
      have hjoin := splitWords_append ht ih
      simpa [join, String.intercalate_cons_cons] using hjoin

theorem splitWords_join_words {ws : List String} (h : ∀ w ∈ ws, splitWords w = .ok [w]) :
    splitWords (join " " ws) = .ok ws := by
  have hall : List.Forall₂ (fun t us ↦ splitWords t = .ok us) ws (ws.map ([·])) := by
    rw [List.forall₂_map_right_iff, List.forall₂_same]
    exact h
  have hflat : (ws.map ([·])).flatten = ws := by
    rw [← List.flatMap_def, List.flatMap_singleton']
  rw [splitWords_join hall, hflat]

/-- A character that neither separates words nor opens or closes anything. -/
def isWordChar (c : Char) : Bool :=
  c != ' ' && c != '\t' && c != '"' && c != '\'' && c != '[' && c != ']' && c != '\x7b' &&
    c != '\x7d'

theorem WordState.step_of_isWordChar (st : WordState) {c : Char} (h : isWordChar c) :
    st.step c = .ok (st.push c) := by
  simp only [isWordChar, Bool.and_eq_true, bne_iff_ne, ne_eq] at h
  obtain ⟨⟨⟨⟨⟨⟨⟨-, -⟩, h₁⟩, h₂⟩, h₃⟩, h₄⟩, h₅⟩, h₆⟩ := h
  simp [step, h₁, h₂, h₃, h₄, h₅, h₆]

theorem scanWords_of_isWordChar (word : List Char) (cs : List Char)
    (h : ∀ c ∈ cs, isWordChar c) :
    scanWords { word := some word } cs = .ok [String.ofList (word.reverse ++ cs)] := by
  induction cs generalizing word with
  | nil => simp [scanWords, WordState.words]
  | cons c cs ih =>
    have hc := h c List.mem_cons_self
    have hblank : ¬ (c = ' ' ∨ c = '\t') := by
      simp only [isWordChar, Bool.and_eq_true, bne_iff_ne, ne_eq] at hc
      rintro (rfl | rfl) <;> simp at hc
    rw [scanWords_unmarked rfl, if_neg (fun hb ↦ hblank hb.1), WordState.step_of_isWordChar _ hc]
    simp [WordState.push, ih (c :: word) (fun d hd ↦ h d (List.mem_cons_of_mem c hd))]

theorem splitWords_of_isWordChar {w : String} (hne : w ≠ "") (h : ∀ c ∈ w.toList, isWordChar c) :
    splitWords w = .ok [w] := by
  rcases hw : w.toList with _ | ⟨c, cs⟩
  · exact absurd (String.toList_eq_nil_iff.1 hw) hne
  · rw [hw] at h
    have hc := h c List.mem_cons_self
    have hblank : ¬ (c = ' ' ∨ c = '\t') := by
      simp only [isWordChar, Bool.and_eq_true, bne_iff_ne, ne_eq] at hc
      rintro (rfl | rfl) <;> simp at hc
    simp only [splitWords, hw]
    rw [scanWords_unmarked rfl, if_neg (fun hb ↦ hblank hb.1), WordState.step_of_isWordChar _ hc]
    simp only [WordState.push, Option.getD_none]
    rw [scanWords_of_isWordChar [c] cs (fun d hd ↦ h d (List.mem_cons_of_mem c hd))]
    have hlist : w = String.ofList (c :: cs) := by rw [← hw, String.ofList_toList]
    simp [hlist]

theorem splitChars_of_notMem {sep : Char} {cs : List Char} (h : sep ∉ cs) :
    splitChars sep cs = [cs] := by
  induction cs with
  | nil => rfl
  | cons c cs ih =>
    rw [List.mem_cons, not_or] at h
    simp [splitChars, Ne.symm h.1, ih h.2]

theorem trimChars_of_ends {cs : List Char} {a z : Char} (ha : cs.head? = some a)
    (hz : cs.getLast? = some z) (hab : isBlank a = false) (hzb : isBlank z = false) :
    trimChars cs = cs := by
  obtain ⟨rest, rfl⟩ : ∃ rest, cs = a :: rest := by
    cases cs with
    | nil => simp at ha
    | cons c rest => simp at ha; exact ⟨rest, by rw [ha]⟩
  have hfront : (a :: rest).dropWhile isBlank = a :: rest := by simp [hab]
  have hback : (a :: rest).reverse.dropWhile isBlank = (a :: rest).reverse := by
    rw [← List.head?_reverse] at hz
    cases hr : (a :: rest).reverse with
    | nil => rfl
    | cons y ys =>
      rw [hr] at hz
      simp only [List.head?_cons, Option.some.injEq] at hz
      simp [hz, hzb]
  rw [trimChars, hfront, hback, List.reverse_reverse]

/-- A text without line breaks that starts and ends with no blank, and starts no comment, is one
command. -/
theorem commandsOf_eq_self {line : String} {a z : Char} (hbreak : '\n' ∉ line.toList)
    (ha : line.toList.head? = some a) (hz : line.toList.getLast? = some z)
    (hab : isBlank a = false) (hzb : isBlank z = false) (hhash : a ≠ '#') :
    commandsOf line = [line] := by
  have htrim : trim line = line := by rw [trim, trimChars_of_ends ha hz hab hzb, String.ofList_toList]
  have hsplit : split '\n' line = [line] := by
    rw [split, splitChars_of_notMem hbreak, List.map_singleton, String.ofList_toList]
  have hkeep : (!line.isEmpty && !hasLead "#" line) = true := by
    rcases hline : line.toList with _ | ⟨c, cs⟩
    · simp [hline] at ha
    · rw [hline] at ha
      simp only [List.head?_cons, Option.some.injEq] at ha
      subst ha
      have hne : line ≠ "" := by
        rintro rfl
        simp at hline
      have hlead : hasLead "#" line = false := by simp [hasLead, hline, dropLead?, Ne.symm hhash]
      simp [hlead, hne]
  simp [commandsOf, hsplit, htrim, hkeep]

end CommandPack.Machine
