import Mathlib
import CommandPack.Proofs.Rendering

/-!
Templates. No text is ever taken for a hole: what stands for itself is escaped, arguments are put in as they are, and
the placeholders that are counted ahead are the holes that are filled.
-/

namespace CommandPack

open Stateful

/-- A part of a template: a text that stands for itself, or a hole. -/
inductive Fragment where
  | text (s : String)
  | hole
deriving DecidableEq

namespace Fragment

/-- How a fragment is written in a template. -/
def written : Fragment → String
  | text s => escapeTemplate s
  | hole => "%s"

def template (fs : List Fragment) : String := String.join (fs.map written)

/-- The texts and, in place of the holes, the arguments in turn. -/
def weave : List Fragment → List String → String
  | text s :: fs, args => s ++ weave fs args
  | hole :: fs, arg :: args => arg ++ weave fs args
  | hole :: fs, [] => weave fs []
  | [], _ => ""

theorem toList_template_cons (f : Fragment) (fs : List Fragment) :
    (template (f :: fs)).toList = f.written.toList ++ (template fs).toList := by
  rw [template, List.map_cons, String.join_cons, String.toList_append, template]

theorem holes_template (fs : List Fragment) : holes (template fs).toList = fs.count hole := by
  induction fs with
  | nil => rfl
  | cons f fs ih =>
    rw [toList_template_cons]
    cases f with
    | text s => rw [written, (escapeTemplate_append s _ []).1, ih, List.count_cons_of_ne (by simp)]
    | hole =>
      rw [List.count_cons_self, ← ih]
      rfl

theorem fillHoles_template (fs : List Fragment) (args : List String) :
    fillHoles (template fs).toList args = (weave fs args).toList := by
  induction fs generalizing args with
  | nil => cases args <;> rfl
  | cons f fs ih =>
    rw [toList_template_cons]
    cases f with
    | text s => rw [written, (escapeTemplate_append s _ args).2, ih, weave, String.toList_append]
    | hole =>
      cases args with
      | nil => exact ih []
      | cons arg args =>
        rw [weave, String.toList_append, ← ih]
        rfl

theorem fills_template {fs : List Fragment} {args : List String} (h : args.length = fs.count hole) :
    Fills (template fs) args (weave fs args) :=
  ⟨(holes_template fs).trans h.symm, fillHoles_template fs args⟩

end Fragment

theorem fill_eq_error_iff (template : String) (args : List String) :
    (∃ p, fill template args = .error p) ↔ placeholders template.toList ≠ args.length := by
  rw [placeholders_eq_holes, fill]
  by_cases hn : holes template.toList = args.length
  · simp [hn]
  · simp [hn]

namespace Instruction

variable {t t' : SymbolTable} {ns : List Name} {texts : List String}

theorem length_of_resolveArgs (h : resolveArgs ns t = (.ok texts, t')) : texts.length = ns.length := by
  induction ns generalizing t texts with
  | nil =>
    cases h
    rfl
  | cons n ns ih =>
    obtain ⟨text, t₁, -, hrest⟩ := bind_eq_ok.1 h
    obtain ⟨texts, t₂, hns, hp⟩ := bind_eq_ok.1 hrest
    cases hp
    rw [List.length_cons, List.length_cons, ih hns]

/-- Literal words cost nothing to resolve, so only the other names need to be. -/
theorem resolveArgs_eq_map (ns : List Name) (t : SymbolTable) :
    resolveArgs ns t = (Name.insertLiterals ns <$> resolveArgs (Condition.args ⟨ns⟩)) t := by
  induction ns generalizing t with
  | nil => rfl
  | cons n ns ih =>
    cases n with
    | lit text =>
      have hargs : Condition.args ⟨.lit text :: ns⟩ = Condition.args ⟨ns⟩ := rfl
      have hlit : Render.resolve (.lit text) t = (.ok text, t) := rfl
      rw [hargs, resolveArgs, bind_apply, hlit, andThen_ok, bind_apply, ih, map_apply, map_apply]
      rcases resolveArgs (Condition.args ⟨ns⟩) t with ⟨e | texts, t₁⟩ <;> rfl
    | sym v =>
      have hargs : Condition.args ⟨.sym v :: ns⟩ = .sym v :: Condition.args ⟨ns⟩ := rfl
      rw [hargs, resolveArgs, bind_apply, map_apply, resolveArgs, bind_apply]
      rcases Render.resolve (.sym v) t with ⟨e | text, t₁⟩
      · rfl
      · simp only [andThen_ok, bind_apply, ih, map_apply]
        rcases resolveArgs (Condition.args ⟨ns⟩) t₁ with ⟨e | texts, t₂⟩ <;> rfl

theorem render_condition (c : Condition) (t : SymbolTable) :
    (literal c.template c.args).render t = ((Text.join " " ·) <$> resolveArgs c.parts) t := by
  have hholes : holes c.template.toList = c.args.length :=
    (Condition.fills_texts (List.length_map (Name.textIn t))).holes_eq.trans (List.length_map _)
  have hn : ¬ placeholders c.template.toList ≠ c.args.length := by simp [placeholders_eq_holes, hholes]
  simp only [render]
  rw [if_neg hn, bind_apply, map_apply, resolveArgs_eq_map c.parts, map_apply]
  rcases hr : resolveArgs c.args t with ⟨e | texts, t'⟩
  · rfl
  · have hfills := Condition.fills_texts (length_of_resolveArgs hr)
    simp only [andThen_ok, hfills.fill_eq_ok]
    rfl

theorem render_text (s : String) (t : SymbolTable) : (text s).render t = (.ok s, t) :=
  render_literal (List.forall_mem_nil _) (fills_escapeTemplate s)

end Instruction

/-- Rendering is free of injection. Filling fails just if the number of arguments is not that of the placeholders. A
template made of fragments has as many placeholders as holes, and filled with any arguments it is the texts and the
arguments in turn, percent signs in them included. So a condition becomes the final texts of its words with single
blanks between them, and a text becomes itself. -/
theorem rendering_is_literal :
    (∀ (template : String) (args : List String),
      (∃ p, fill template args = .error p) ↔ placeholders template.toList ≠ args.length) ∧
    (∀ fs : List Fragment, placeholders (Fragment.template fs).toList = fs.count .hole ∧
      ∀ args : List String, args.length = fs.count .hole →
        fill (Fragment.template fs) args = .ok (Fragment.weave fs args)) ∧
    (∀ (c : Condition) (t : SymbolTable), (Instruction.literal c.template c.args).render t =
      ((Text.join " " ·) <$> Instruction.resolveArgs c.parts) t) ∧
    ∀ (s : String) (t : SymbolTable), (Instruction.text s).render t = (.ok s, t) := by
  refine ⟨fill_eq_error_iff, fun fs ↦ ⟨?_, fun args hargs ↦ ?_⟩, Instruction.render_condition, Instruction.render_text⟩
  · rw [placeholders_eq_holes, Fragment.holes_template]
  · exact (Fragment.fills_template hargs).fill_eq_ok

/-- A text that ends in a percent sign before a hole, and an argument that looks like one. -/
example : (fill (Fragment.template [.text "100%", .hole, .text "s%s"]) ["%s"]).toOption = some "100%%ss%s" := by
  decide +kernel

end CommandPack
