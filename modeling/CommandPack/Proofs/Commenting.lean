import Mathlib
import CommandPack.Instruction
import CommandPack.Proofs.Exporting
import CommandPack.Proofs.Stateful

/-!
Comments among the instructions. What is a comment is decided by how its template starts, and what is a command by how
each line of the text starts; so a comment is no command as far as its line goes, and the lines after it are what they are.
-/

namespace CommandPack

open Text Machine Stateful

namespace Machine

variable {before first : List Char}

theorem trimChars_blank {c : Char} (hc : isBlank c = true) (cs : List Char) : trimChars (c :: cs) = trimChars cs := by
  simp [trimChars, hc]

theorem trimChars_append_blank (hbefore : ∀ b ∈ before, isBlank b = true) (cs : List Char) :
    trimChars (before ++ cs) = trimChars cs := by
  induction before with
  | nil => rfl
  | cons b before ih =>
    obtain ⟨hb, hbefore⟩ := List.forall_mem_cons.1 hbefore
    rw [List.cons_append, trimChars_blank hb, ih hbefore]

/-- What still starts with a sign after trimming has only blanks before it. -/
theorem eq_append_of_trimChars {c : Char} {cs ds : List Char} (h : trimChars cs = c :: ds) :
    ∃ before rest, cs = before ++ c :: rest ∧ ∀ b ∈ before, isBlank b = true := by
  induction cs with
  | nil => cases h
  | cons b cs ih =>
    cases hb : isBlank b with
    | true =>
      rw [trimChars_blank hb] at h
      obtain ⟨before, rest, rfl, hbefore⟩ := ih h
      exact ⟨b :: before, rest, rfl, List.forall_mem_cons.2 ⟨hb, hbefore⟩⟩
    | false =>
      obtain ⟨es, hes⟩ := trimChars_cons hb cs
      obtain ⟨rfl, -⟩ := List.cons.inj (hes.symm.trans h)
      exact ⟨[], cs, rfl, List.forall_mem_nil _⟩

theorem hasLead_trim_iff {text : String} : hasLead "#" (trim text) = true ↔ ∃ ds, trimChars text.toList = '#' :: ds := by
  rw [hasLead, trim, String.toList_ofList]
  cases trimChars text.toList with
  | nil => simp [dropLead?]
  | cons c ds =>
    by_cases hc : '#' = c
    · subst hc
      simp [dropLead?]
    · simp [dropLead?, hc, Ne.symm hc]

/-- All lines up to that of a comment are blank, and it starts with the sign of a comment. -/
theorem lines_of_comment (hbefore : ∀ b ∈ before, isBlank b = true) (hfirst : '\n' ∉ first) :
    ∀ piece ∈ splitChars '\n' (before ++ '#' :: first), trimChars piece = [] ∨ ∃ ds, trimChars piece = '#' :: ds := by
  induction before with
  | nil =>
    rw [List.nil_append, splitChars_of_notMem (by simpa using hfirst), List.forall_mem_singleton]
    exact .inr (trimChars_cons (by decide) first)
  | cons b before ih =>
    obtain ⟨hb, hbefore⟩ := List.forall_mem_cons.1 hbefore
    have hlines := ih hbefore
    rw [List.cons_append, splitChars]
    split
    · exact List.forall_mem_cons.2 ⟨.inl rfl, hlines⟩
    · cases hsplit : splitChars '\n' (before ++ '#' :: first) with
      | nil => simp [trimChars, hb]
      | cons piece pieces =>
        rw [hsplit, List.forall_mem_cons] at hlines
        rw [List.forall_mem_cons, trimChars_blank hb]
        exact hlines

theorem commandsOf_eq_nil_iff {text : String} :
    commandsOf text = [] ↔ ∀ line ∈ split '\n' text, trim line = "" ∨ hasLead "#" (trim line) = true := by
  simp only [commandsOf, List.filter_eq_nil_iff, List.forall_mem_map, Bool.and_eq_true, Bool.not_eq_true', not_and,
    Bool.not_eq_false, String.isEmpty_eq_false_iff, or_iff_not_imp_left]

theorem commandsOf_blank_comment (hbefore : ∀ b ∈ before, isBlank b = true) (hfirst : '\n' ∉ first) :
    commandsOf (String.ofList (before ++ '#' :: first)) = [] := by
  rw [commandsOf_eq_nil_iff, split, String.toList_ofList, List.forall_mem_map]
  intro piece hpiece
  rw [hasLead_trim_iff, String.toList_ofList]
  refine (lines_of_comment hbefore hfirst piece hpiece).imp_left fun h ↦ ?_
  rw [trim, String.toList_ofList, h]

/-- The text from the end of its first line that is not blank. -/
def afterFirst (text : String) : String := String.ofList ((text.toList.dropWhile isBlank).dropWhile (· != '\n'))

theorem commandsOf_comment_lines (hbefore : ∀ b ∈ before, isBlank b = true) (cs : List Char) :
    commandsOf (String.ofList (before ++ '#' :: cs)) = commandsOf (afterFirst (String.ofList (before ++ '#' :: cs))) := by
  have hafter : afterFirst (String.ofList (before ++ '#' :: cs)) = String.ofList (cs.dropWhile (· != '\n')) := by
    rw [afterFirst, String.toList_ofList, List.dropWhile_append_of_pos hbefore]
    rfl
  have hfirst : '\n' ∉ cs.takeWhile (· != '\n') := fun h ↦ by simpa using List.mem_takeWhile_imp h
  have hcomment := commandsOf_blank_comment hbefore hfirst
  rw [hafter]
  conv_lhs => rw [← List.takeWhile_append_dropWhile (p := (· != '\n')) (l := cs)]
  cases hlater : cs.dropWhile (· != '\n') with
  | nil =>
    rw [List.append_nil, hcomment]
    rfl
  | cons c later =>
    obtain rfl : c = '\n' := by
      have hhead := List.head?_dropWhile_not (· != '\n') cs
      simpa [hlater] using hhead
    have hline (a : List Char) : String.ofList (a ++ '\n' :: later) = String.ofList a ++ "\n" ++ String.ofList later := by
      apply String.toList_injective
      simp
    have hrest := hline []
    rw [List.nil_append] at hrest
    rw [← List.cons_append, ← List.append_assoc, hline, commandsOf_line, hcomment, hrest, commandsOf_line]
    rfl

end Machine

namespace Instruction

theorem fillHoles_comment {before : List Char} (hbefore : ∀ b ∈ before, isBlank b = true) (rest : List Char)
    (args : List String) : fillHoles (before ++ '#' :: rest) args = before ++ '#' :: fillHoles rest args := by
  induction before with
  | nil => rw [List.nil_append, fillHoles, List.nil_append] <;> simp
  | cons b before ih =>
    obtain ⟨hb, hbefore⟩ := List.forall_mem_cons.1 hbefore
    have hne : b ≠ '%' := by
      rintro rfl
      cases hb
    rw [List.cons_append, fillHoles, ih hbefore, List.cons_append] <;> simp [hne]

theorem eq_fill_of_render {template line : String} {args : List Name} {t t' : SymbolTable}
    (h : (literal template args).render t = (.ok line, t')) :
    ∃ texts, line = String.ofList (fillHoles template.toList texts) := by
  simp only [render] at h
  split at h
  · cases h
  · simp only [bind_eq_ok] at h
    obtain ⟨texts, t₁, -, h⟩ := h
    cases hfill : fill template texts with
    | error p =>
      rw [hfill] at h
      cases h
    | ok text =>
      rw [hfill] at h
      cases h
      unfold fill at hfill
      dsimp only at hfill
      split at hfill
      · exact ⟨texts, (Except.ok.inj hfill).symm⟩
      · cases hfill

/-- A comment is a line without commands. Whatever a comment is made of, its text starts with a comment sign, and what
follows in the same line is no command; the commands of the text are those of the lines after it. So it has none just if
all of these are blank or comments. -/
theorem comment_has_later_commands {i : Instruction} {t t' : SymbolTable} {line : String} (hi : i.isComment = true)
    (hrender : i.render t = (.ok line, t')) :
    hasLead "#" (trim line) = true ∧ commandsOf line = commandsOf (afterFirst line) ∧
      (commandsOf line = [] ↔ ∀ l ∈ split '\n' (afterFirst line), trim l = "" ∨ hasLead "#" (trim l) = true) := by
  cases i with
  | literal template args =>
    obtain ⟨ds, hds⟩ := hasLead_trim_iff.1 hi
    obtain ⟨before, rest, htemplate, hbefore⟩ := eq_append_of_trimChars hds
    obtain ⟨texts, rfl⟩ := eq_fill_of_render hrender
    rw [htemplate, fillHoles_comment hbefore]
    have hsame := commandsOf_comment_lines hbefore (fillHoles rest texts)
    refine ⟨?_, hsame, ?_⟩
    · rw [hasLead_trim_iff, String.toList_ofList, trimChars_append_blank hbefore]
      exact trimChars_cons (by decide) _
    · rw [hsame]
      exact commandsOf_eq_nil_iff
  | call | composed | tellraw => cases hi

/-- A comment of three lines, of which the last two are blank and a comment again. -/
theorem comment_has_later_commands_note : (comment "note\n \n# more").isComment = true ∧
    (comment "note\n \n# more").render {} = (.ok "\n# note\n \n# more", {}) ∧ commandsOf "\n# note\n \n# more" = [] := by
  have hcomment : (comment "note\n \n# more").isComment = true := by decide +kernel
  have hrender : (comment "note\n \n# more").render {} = (.ok "\n# note\n \n# more", {}) := by cbv
  exact ⟨hcomment, hrender, (comment_has_later_commands hcomment hrender).2.2.2 (by decide +kernel)⟩

/-- The second line of a comment is a command. -/
theorem comment_says_hi : (comment "note\nsay hi").isComment = true ∧
    (comment "note\nsay hi").render {} = (.ok "\n# note\nsay hi", {}) ∧ commandsOf "\n# note\nsay hi" = ["say hi"] :=
  ⟨by decide +kernel, by cbv, by decide +kernel⟩

end Instruction

end CommandPack
