import Mathlib
import CommandPack.Listing
import CommandPack.Machine.World
import CommandPack.Proofs.Paths

/-!
Functions as files. The header of a file is made of comments, and line breaks between lines are line breaks inside one
text, so a file and the lines that it was made of are the same commands.
-/

namespace CommandPack

open Text Machine

namespace Machine

theorem split_line (line rest : String) : split '\n' (line ++ "\n" ++ rest) = split '\n' line ++ split '\n' rest := by
  have hchars : (line ++ "\n" ++ rest).toList = line.toList ++ '\n' :: rest.toList := by simp
  rw [split, hchars, splitChars_append_sep, List.map_append, split, split]

theorem commandsOf_line (line rest : String) :
    commandsOf (line ++ "\n" ++ rest) = commandsOf line ++ commandsOf rest := by
  rw [commandsOf, split_line, List.map_append, List.filter_append, commandsOf, commandsOf]

theorem commandsOf_lines (lines : List String) (rest : String) :
    commandsOf (String.join (lines.map (· ++ "\n")) ++ rest) = lines.flatMap commandsOf ++ commandsOf rest := by
  induction lines with
  | nil => simp
  | cons line lines ih =>
    rw [List.map_cons, String.join_cons, String.append_assoc, commandsOf_line, ih, List.flatMap_cons,
      List.append_assoc]

/-- What starts with a sign that is no blank still does after trimming. -/
theorem trimChars_cons {c : Char} (hc : isBlank c = false) (cs : List Char) :
    ∃ ds, trimChars (c :: cs) = c :: ds := by
  have hfront : (c :: cs).dropWhile isBlank = c :: cs := by simp [hc]
  have hback : (cs.reverse ++ [c]).dropWhile isBlank = cs.reverse.dropWhile isBlank ++ [c] := by
    induction cs.reverse with
    | nil => simp [hc]
    | cons d ds ih => by_cases hd : isBlank d = true <;> simp_all
  refine ⟨(cs.reverse.dropWhile isBlank).reverse, ?_⟩
  rw [trimChars, hfront, List.reverse_cons, hback, List.reverse_append, List.reverse_singleton, List.singleton_append]

theorem commandsOf_comment {line : String} (h : '\n' ∉ line.toList) : commandsOf ("# " ++ line) = [] := by
  have hchars : ("# " ++ line).toList = '#' :: ' ' :: line.toList := by simp
  have hbreak : '\n' ∉ ("# " ++ line).toList := by
    rw [hchars]
    simpa using h
  obtain ⟨rest, hrest⟩ := trimChars_cons (by decide : isBlank '#' = false) (' ' :: line.toList)
  have hlead : hasLead "#" (trim ("# " ++ line)) = true := by
    rw [trim, hchars, hrest, hasLead, String.toList_ofList]
    simp [dropLead?]
  rw [commandsOf, split, splitChars_of_notMem hbreak, List.map_singleton, String.ofList_toList, List.map_singleton,
    List.filter_cons_of_neg (by simp [hlead]), List.filter_nil]

end Machine

namespace Function

/-- The comments that describe a function, one for each line of the description. -/
def comments (f : Function) : List String :=
  if f.description.isEmpty then [] else (split '\n' f.description).map ("# " ++ ·) ++ [""]

theorem text_eq (f : Function) : f.text = String.join ((f.comments ++ f.lines).map (· ++ "\n")) := by
  rw [text, comments]
  split
  · simp
  · simp only [List.map_append, List.map_map, String.join_append, List.map_cons, List.map_nil]
    rfl

theorem commandsOf_comments (f : Function) : f.comments.flatMap commandsOf = [] := by
  rw [comments]
  split
  · rfl
  · rw [List.flatMap_eq_nil_iff]
    intro line hline
    rcases List.mem_append.1 hline with hline | hline
    · obtain ⟨piece, hpiece, rfl⟩ := List.mem_map.1 hline
      obtain ⟨chars, hchars, rfl⟩ := List.mem_map.1 hpiece
      apply commandsOf_comment
      rw [String.toList_ofList]
      exact notMem_of_mem_splitChars hchars
    · rw [List.mem_singleton.1 hline]
      rfl

/-- The file of a function is the same program as its lines: whatever the description and the lines are, a machine has
the same commands for the function when it is defined by the one text of the file. -/
theorem define_text (f : Function) (m : Machine) (path : String) : m.define path [f.text] = m.define path f.lines := by
  have hcommands : commandsOf f.text = f.lines.flatMap commandsOf := by
    have h := commandsOf_lines (f.comments ++ f.lines) ""
    rw [String.append_empty, ← text_eq, List.flatMap_append, commandsOf_comments, List.nil_append] at h
    rw [h, show commandsOf "" = [] from rfl, List.append_nil]
  rw [define, define, List.flatMap_singleton, hcommands]

/-- A description with an empty line and with a line that looks like a command, and lines with comments and line breaks
of their own. -/
example : (({} : Machine).define "a:f" [Function.text
      { path := "a:f", parts := ["a", "f"], description := "first\n\nsay no", lines := ["say a\n # b\n say c ", "say d"] }]).functions =
    [("a:f", ["say a", "say c", "say d"])] := by decide +kernel

end Function

end CommandPack
