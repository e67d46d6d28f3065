import Mathlib
import CommandPack.Problem.Format

/-!
Questions about failures and reports of them. Both go through nested collections in their own way, and both come to
the same leaves: a question finds a problem of a kind just if one of the leaves is, and a report has one part for each
leaf, in their order, that shows all there is to say about it.
-/

namespace CommandPack

namespace Failure

/-- What went wrong, one by one. -/
inductive Leaf where
  | problem (p : Problem)
  | other (text : String)

mutual

/-- The leaves of a failure from left to right; an empty collection has none. -/
def leaves : Failure → List Leaf
  | .problem p => [.problem p]
  | .group ps => ps.map .problem
  | .several fs => leavesOf fs
  | .plain text => [.other text]
  | .stopped s => [.other s.text]

def leavesOf : List Failure → List Leaf
  | [] => []
  | f :: fs => leaves f ++ leavesOf fs

end

mutual

theorem mem_leaves_of_firstProblem? {p : Problem} :
    ∀ {f : Failure}, f.firstProblem? = some p → .problem p ∈ f.leaves
  | .problem q, h => by
    obtain rfl : q = p := Option.some.inj h
    exact List.mem_singleton_self _
  | .several fs, h => mem_leavesOf_of_firstProblemOf? h
  | .plain _, h | .group _, h | .stopped _, h => nomatch h

theorem mem_leavesOf_of_firstProblemOf? {p : Problem} :
    ∀ {fs : List Failure}, firstProblemOf? fs = some p → .problem p ∈ leavesOf fs
  | [], h => nomatch h
  | f :: fs, h => by
    rw [firstProblemOf?, Option.or_eq_some_iff] at h
    rcases h with h | ⟨-, h⟩
    · exact List.mem_append_left _ (mem_leaves_of_firstProblem? h)
    · exact List.mem_append_right _ (mem_leavesOf_of_firstProblemOf? h)

end

variable {k : ProblemKind}

mutual

/-- Trying the first problem beforehand finds nothing that the parts do not have. -/
theorem has_iff : ∀ f : Failure, f.has k = true ↔ ∃ p, .problem p ∈ f.leaves ∧ p.kind = some k
  | .problem p => by simp [has, leaves]
  | .group ps => by simp [has, leaves]
  | .several fs => by
    rw [has, leaves, Bool.or_eq_true, anyHas_iff fs]
    refine or_iff_right_of_imp fun h ↦ ?_
    obtain ⟨p, hp, hk⟩ := (Option.any_eq_true ..).1 h
    exact ⟨p, mem_leavesOf_of_firstProblemOf? hp, by simpa using hk⟩
  | .plain _ | .stopped _ => by simp [has, leaves]

theorem anyHas_iff : ∀ fs : List Failure, anyHas k fs = true ↔ ∃ p, .problem p ∈ leavesOf fs ∧ p.kind = some k
  | [] => by simp [anyHas, leavesOf]
  | f :: fs => by
    rw [anyHas, leavesOf, Bool.or_eq_true, has_iff f, anyHas_iff fs, ← exists_or]
    simp only [List.mem_append, or_and_right]

end

end Failure

namespace Problem

open Failure Text

/-- A leaf as a problem; of anything that is not one there is only the text. -/
def told : Leaf → Problem
  | .problem p => p
  | .other text => { kind := none, message := text }

mutual

theorem report_eq (entries : List Entry) : ∀ f : Failure, report entries f = entries ++ f.leaves.map (told · |>.entry)
  | .problem _ | .plain _ | .stopped _ => rfl
  | .group ps => by
    have hfold : ∀ entries : List Entry, ps.foldl (fun es p ↦ es ++ [p.entry]) entries = entries ++ ps.map entry := by
      induction ps with
      | nil => simp
      | cons p ps ih => simp [ih]
    simp [report, leaves, hfold, told]
  | .several fs => by rw [report, leaves, reportAll_eq entries fs]

theorem reportAll_eq (entries : List Entry) :
    ∀ fs : List Failure, reportAll entries fs = entries ++ (leavesOf fs).map (told · |>.entry)
  | [] => by simp [reportAll, leavesOf]
  | f :: fs => by
    rw [reportAll, report_eq entries f, reportAll_eq _ fs, leavesOf, List.map_append, List.append_assoc]

end

/-- Texts stand in a text one after another. -/
def StandIn : List String → String → Prop
  | [], _ => True
  | t :: ts, s => ∃ before after, s = before ++ t ++ after ∧ StandIn ts after

section StandIn

variable {ts us : List String} {s t : String}

theorem StandIn.append (h : StandIn ts s) (h' : StandIn us t) : StandIn (ts ++ us) (s ++ t) := by
  induction ts generalizing s with
  | nil =>
    cases us with
    | nil => trivial
    | cons u us =>
      obtain ⟨before, after, rfl, hafter⟩ := h'
      exact ⟨s ++ before, after, by simp only [String.append_assoc], hafter⟩
  | cons x ts ih =>
    obtain ⟨before, after, rfl, hafter⟩ := h
    exact ⟨before, after ++ t, by simp only [String.append_assoc], ih hafter⟩

theorem StandIn.before (h : StandIn ts s) (t : String) : StandIn ts (s ++ t) := by
  have hnone : StandIn [] t := trivial
  simpa using h.append hnone

theorem StandIn.after (h : StandIn ts s) (t : String) : StandIn ts (t ++ s) := by
  have hnone : StandIn [] t := trivial
  exact hnone.append h

theorem StandIn.paint (h : StandIn ts s) (color : Bool) (p : Paint) : StandIn ts (paint color p s) := by
  unfold Problem.paint
  split
  · exact (h.after _).before _
  · exact h

end StandIn

def filled (text : String) : List String := if text = "" then [] else [text]

/-- Where a problem is, as far as that is known. -/
def place? (p : Problem) : Option String :=
  if 0 < p.line then some ((if p.file = "" then "" else p.file ++ ":") ++ s!"{p.line}:{p.column}")
  else if p.file = "" then none else some p.file

/-- What there is to say about a problem, in this order. -/
def facts (p : Problem) : List String :=
  filled p.code ++ [p.message] ++ p.place?.toList ++ filled p.note ++ p.context.reverse

/-- What is said about a problem, line by line. -/
def lines (number : String) (p : Problem) : List String :=
  ("error" ++ (if p.code = "" then if number = "" then "" else "[" ++ number ++ "]" else "[" ++ p.code ++ "]") ++
      ": " ++ p.message) ::
    (p.place?.toList.map ("  --> " ++ ·) ++ (filled p.note).map ("   = note: " ++ ·) ++
      if p.context = [] then [] else "   = while compiling:" :: p.context.reverse.map ("     in " ++ ·))

/-- A part of a report shows a problem: all there is to say about it stands there in order, and without
colours there is nothing else. -/
structure Shows (color : Bool) (p : Problem) (number part : String) : Prop where
  facts : StandIn p.facts part
  lines (hcolor : color = false) : part = String.join ((p.lines number).map (· ++ "\n"))

section Shows

variable (color : Bool) (p : Problem)

end Shows

/-- What a report is about: the leaves of a failure or, if it has none, the failure itself. -/
def reported (f : Failure) : List Leaf := if f.leaves = [] then [.other f.text] else f.leaves

end Problem

end CommandPack
