import Mathlib
import CommandPack.Proofs.Flow
import CommandPack.Proofs.Naming
import CommandPack.Listing

/-!
Instructions as text. A table that has a text for every symbol they mention is not changed by
becoming text, so a text is a function of the table.
-/

namespace CommandPack

open Stateful

variable {a line template text : String} {i : Instruction} {is : List Instruction} {ds : List Char}
  {args texts : List String} {t : SymbolTable} {n : Name} {ns : List Name}

def Name.textIn (t : SymbolTable) : Name → String
  | .lit text => text
  | .sym v => (t.find? v.id).getD ""

def SymbolTable.Knows (t : SymbolTable) : Name → Prop
  | .lit _ => True
  | .sym v => ∃ text, t.find? v.id = some text

theorem SymbolTable.Knows.resolve (h : t.Knows n) : Render.resolve n t = (.ok (n.textIn t), t) := by
  cases n with
  | lit text => rfl
  | sym v =>
    obtain ⟨text, h⟩ := h
    have hr : (SymbolTable.resolve (.sym v)) t = (.ok text, t) := SymbolTable.resolve_of_find? h
    rw [Render.resolve, ExceptT.run, hr, Name.textIn, h]
    rfl

def Leaves {α : Type} (t : SymbolTable) (x : Render α) : Prop := (x t).2 = t

namespace Leaves

variable {α β : Type} {x : Render α} {f : α → Render β}

theorem pure (a : α) : Leaves t (pure a : Render α) := rfl

theorem throw (e : Failure) : Leaves t (throw e : Render α) := rfl

theorem bind (hx : Leaves t x) (hf : ∀ a, Leaves t (f a)) : Leaves t (x >>= f) := by
  rw [Leaves, bind_apply]
  rw [Leaves] at hx
  rcases hr : x t with ⟨e | a, t'⟩
  · rw [hr] at hx
    exact hx
  · rw [hr] at hx
    subst hx
    exact hf a

end Leaves

theorem SymbolTable.Knows.leaves (h : t.Knows n) : Leaves t (Render.resolve n) := by
  rw [Leaves, h.resolve]

theorem Instruction.resolveArgs_known (h : ∀ n ∈ ns, t.Knows n) :
    resolveArgs ns t = (.ok (ns.map (Name.textIn t)), t) := by
  induction ns with
  | nil => rfl
  | cons n ns ih =>
    obtain ⟨hn, hns⟩ := List.forall_mem_cons.1 h
    simp only [resolveArgs, bind_apply, hn.resolve, andThen_ok, ih hns, pure_apply, List.map_cons]

theorem Content.leaves_addTo {c : Content} (h : ∀ n ∈ c.names, t.Knows n) (fields : Dict Datum) :
    Leaves t (c.addTo fields) := by
  cases c with
  | nothing => exact .pure _
  | text s => exact .pure _
  | score s =>
    exact (h s.player (by simp [names])).leaves.bind fun _ ↦ (h s.objective (by simp [names])).leaves.bind fun _ ↦ .pure _
  | data container target path => exact (h target (by simp [names])).leaves.bind fun _ ↦ .pure _

theorem Component.leaves_resolveAll {cs : List Component} (h : ∀ c ∈ cs, ∀ n ∈ c.content.names, t.Knows n) :
    Leaves t (resolveAll cs) := by
  induction cs with
  | nil => exact .pure _
  | cons c cs ih =>
    obtain ⟨hc, hcs⟩ := List.forall_mem_cons.1 h
    exact (Content.leaves_addTo hc _).bind fun _ ↦ (ih hcs).bind fun _ ↦ .pure _

theorem Name.mem_collect : (∀ seen n, seen ⊆ collectInto seen n ∧
      ∀ v, n = .sym v → ∃ w ∈ collectInto seen n, w.id = v.id) ∧
    ∀ seen ns, seen ⊆ collectAllInto seen ns ∧
      ∀ v, .sym v ∈ ns → ∃ w ∈ collectAllInto seen ns, w.id = v.id := by
  refine collectInto.mutual_induct _ _ ?lit ?seen ?new ?nil ?cons
  case lit => exact fun seen text ↦ ⟨List.Subset.refl _, by simp⟩
  case seen =>
    intro seen id kind text owner args hseen
    rw [collectInto, if_pos hseen]
    refine ⟨List.Subset.refl _, ?_⟩
    rintro v ⟨⟩
    simpa using hseen
  case new =>
    intro seen id kind text owner args hseen ih
    rw [collectInto, if_neg hseen]
    refine ⟨List.subset_append_of_subset_left _ ih.1, ?_⟩
    rintro v ⟨⟩
    exact ⟨_, List.mem_append_right _ (List.mem_singleton_self _), rfl⟩
  case nil => exact fun seen ↦ ⟨List.Subset.refl _, by simp⟩
  case cons =>
    intro seen n ns ihn ihns
    rw [collectAllInto]
    refine ⟨List.Subset.trans ihn.1 ihns.1, fun v hv ↦ ?_⟩
    rcases List.mem_cons.1 hv with rfl | hv
    · obtain ⟨w, hw, hid⟩ := ihn.2 v rfl
      exact ⟨w, ihns.1 hw, hid⟩
    · exact ihns.2 v hv

theorem SymbolTable.knows_of_collect (h : ∀ v ∈ Name.collect ns, t.Knows (.sym v)) : ∀ n ∈ ns, t.Knows n := by
  intro n hn
  cases n with
  | lit => trivial
  | sym v =>
    obtain ⟨w, hw, hid⟩ := (Name.mem_collect.2 [] ns).2 v hn
    obtain ⟨text, htext⟩ := h w hw
    exact ⟨text, hid ▸ htext⟩

namespace Instruction

variable {t' : SymbolTable}

theorem leaves_render_and_renderAll :
    (∀ i : Instruction, (∀ v ∈ i.symbols, t.Knows (.sym v)) → Leaves t i.render) ∧
      ∀ is : List Instruction, (∀ v ∈ symbolsOf is, t.Knows (.sym v)) → Leaves t (renderAll is) := by
  refine render.mutual_induct _ _ ?mismatch ?literal ?grouping ?call ?composed ?tellraw ?nil ?cons
  case mismatch =>
    intro template args n hn h
    simp only [render]
    rw [if_pos hn]
    exact .throw _
  case literal =>
    intro template args n hn h
    simp only [render]
    rw [if_neg hn]
    have hargs : Leaves t (resolveArgs args) := by
      rw [Leaves, resolveArgs_known (SymbolTable.knows_of_collect h)]
    refine hargs.bind fun texts ↦ ?_
    cases fill template texts with
    | ok line => exact .pure _
    | error p => exact .throw _
  case grouping =>
    intro target hentry h
    rw [render, if_pos hentry]
    exact .throw _
  case call =>
    intro target hentry h
    rw [render, if_neg hentry]
    exact .pure _
  case composed =>
    intro parts ih h
    rw [render]
    exact (ih h).bind fun _ ↦ .pure _
  case tellraw =>
    intro target components h
    have hknows := SymbolTable.knows_of_collect h
    rw [render]
    refine (hknows target List.mem_cons_self).leaves.bind fun _ ↦
      (Component.leaves_resolveAll fun c hc n hn ↦ ?_).bind fun shown ↦ ?_
    · exact hknows n (List.mem_cons_of_mem _ (List.mem_flatMap.2 ⟨c, hc, hn⟩))
    · split
      · exact .pure _
      · exact .throw _
  case nil => exact fun _ ↦ .pure _
  case cons =>
    intro p ps ihp ihps h
    rw [symbolsOf] at h
    rw [renderAll]
    exact (ihp fun v hv ↦ h v (List.mem_append_left _ hv)).bind fun _ ↦
      (ihps fun v hv ↦ h v (List.mem_append_right _ hv)).bind fun _ ↦ .pure _

def textIn (t : SymbolTable) (i : Instruction) : String := ((i.render t).1.toOption).getD ""

def Known (t : SymbolTable) (is : List Instruction) : Prop := ∀ v ∈ symbolsOf is, t.Knows (.sym v)

theorem textIn_of_render (h : i.render t = (.ok text, t')) : i.textIn t = text := by
  rw [textIn, h]
  rfl

theorem renderAll_known {lines : List String} (h : Known t is) (hr : renderAll is t = (.ok lines, t')) :
    t' = t ∧ lines = is.map (textIn t) := by
  induction is generalizing lines t' with
  | nil =>
    cases hr
    exact ⟨rfl, rfl⟩
  | cons i is ih =>
    rw [Known, symbolsOf] at h
    obtain ⟨text, t₁, hi, hrest⟩ := bind_eq_ok.1 hr
    obtain ⟨texts, t₂, his, hp⟩ := bind_eq_ok.1 hrest
    have hleaves := leaves_render_and_renderAll.1 i fun v hv ↦ h v (List.mem_append_left _ hv)
    rw [Leaves, hi] at hleaves
    obtain rfl : t₁ = t := hleaves
    obtain ⟨rfl, rfl⟩ := ih (fun v hv ↦ h v (List.mem_append_right _ hv)) his
    cases hp
    exact ⟨rfl, by rw [List.map_cons, textIn_of_render hi]⟩

end Instruction

/-- A text does not start with what may follow a percent sign. -/
def IsApart (cs : List Char) : Prop := ∀ c ∈ cs.head?, c ≠ 's' ∧ c ≠ '%'

/-- A character that starts no hole and no percent sign still starts none before other text. -/
theorem not_marked_append {c d : Char} {cs : List Char} (h : IsApart ds) (hd : d = 's' ∨ d = '%')
    (hc : ∀ es, c = '%' → cs = d :: es → False) : ∀ es, c = '%' → cs ++ ds = d :: es → False := by
  intro es hmark heq
  cases cs with
  | nil =>
    rw [List.nil_append] at heq
    have := h d (by rw [heq]; rfl)
    tauto
  | cons e cs =>
    rw [List.cons_append, List.cons.injEq] at heq
    exact hc cs hmark (by rw [heq.1])

theorem holes_append (cs : List Char) (h : IsApart ds) : holes (cs ++ ds) = holes cs + holes ds := by
  fun_induction holes cs with
  | case1 cs ih => simp [holes, ih]; omega
  | case2 cs ih => simp [holes, ih]
  | case3 c cs h1 h2 ih =>
    rw [List.cons_append, holes, ih]
    · exact not_marked_append h (.inl rfl) h1
    · exact not_marked_append h (.inr rfl) h2
  | case4 => simp

theorem fillHoles_append {cs : List Char} (hn : holes cs = args.length) (h : IsApart ds) (args' : List String) :
    fillHoles (cs ++ ds) (args ++ args') = fillHoles cs args ++ fillHoles ds args' := by
  fun_induction fillHoles cs args with
  | case1 cs arg args ih =>
    simp only [holes, List.length_cons, Nat.add_right_cancel_iff] at hn
    simp [fillHoles, ih hn]
  | case2 cs => simp [holes] at hn
  | case3 cs args ih =>
    rw [holes] at hn
    simp [fillHoles, ih hn]
  | case4 c cs args h1 h2 h3 ih =>
    have hs : ∀ es, c = '%' → cs = 's' :: es → False := by
      cases args with
      | nil => exact fun es ↦ h2 es rfl
      | cons arg args => exact fun es ↦ h1 es arg args rfl
    rw [holes] at hn
    · rw [List.cons_append, fillHoles, ih hn, List.cons_append]
      · exact not_marked_append h (.inr rfl) h3
      · exact fun es _ _ _ ↦ not_marked_append h (.inl rfl) hs es
      · exact fun es _ ↦ not_marked_append h (.inl rfl) hs es
    · exact hs
    · exact h3
  | case5 args =>
    obtain rfl : args = [] := List.length_eq_zero_iff.1 hn.symm
    rfl

/-- Counting placeholders ahead and counting the holes that are filled agree: where the one takes a character
after a percent sign along and the other looks at it again, that character starts nothing. -/
theorem placeholders_eq_holes (cs : List Char) : placeholders cs = holes cs := by
  fun_induction placeholders cs with
  | case1 c cs ih =>
    by_cases hs : c = 's'
    · subst hs
      rw [if_pos rfl, ih, holes, Nat.add_comm]
    · rw [if_neg hs, ih, Nat.zero_add]
      by_cases hp : c = '%'
      · subst hp
        rw [holes]
      · rw [holes, holes] <;> simp [hs, hp]
  | case2 c cs h ih =>
    rw [ih]
    by_cases hc : c = '%'
    · subst hc
      cases cs with
      | nil => rfl
      | cons d cs => exact absurd rfl (h d cs rfl)
    · rw [holes] <;> simp [hc]
  | case3 => rfl

/-- A template with arguments in its holes is a text. -/
structure Fills (template : String) (args : List String) (text : String) : Prop where
  holes_eq : holes template.toList = args.length
  fill_eq : fillHoles template.toList args = text.toList

theorem Fills.fill_eq_ok (h : Fills template args text) : fill template args = .ok text := by
  rw [fill, if_pos h.holes_eq, h.fill_eq, String.ofList_toList]

/-- An escaped text has no holes and is filled in as it was, whatever comes after it. -/
theorem escapeTemplate_append (text : String) (ds : List Char) (args : List String) :
    holes ((escapeTemplate text).toList ++ ds) = holes ds ∧
      fillHoles ((escapeTemplate text).toList ++ ds) args = text.toList ++ fillHoles ds args := by
  rw [escapeTemplate, String.toList_ofList]
  induction text.toList with
  | nil => exact ⟨rfl, rfl⟩
  | cons c cs ih =>
    obtain ⟨hholes, hfill⟩ := ih
    by_cases hc : c = '%'
    · subst hc
      simp only [List.flatMap_cons, if_true, List.cons_append, List.nil_append, holes, fillHoles, hholes, hfill,
        and_self]
    · simp only [List.flatMap_cons, if_neg hc, List.cons_append, List.nil_append]
      rw [holes, fillHoles, hholes, hfill]
      · exact ⟨rfl, rfl⟩
      all_goals
        intros
        exact hc ‹_›

theorem fills_escapeTemplate (text : String) : Fills (escapeTemplate text) [] text := by
  obtain ⟨hholes, hfill⟩ := escapeTemplate_append text [] []
  rw [List.append_nil] at hholes hfill
  exact ⟨hholes, hfill.trans (List.append_nil _)⟩

/-- A word of a template that stands for itself. -/
def word (w : String) : String × List String × String := (w, [], w)

def hole (arg : String) : String × List String × String := ("%s", [arg], arg)

@[simp] theorem fills_hole (arg : String) : Fills (hole arg).1 (hole arg).2.1 (hole arg).2.2 :=
  ⟨by simp [hole, holes], by simp [hole, fillHoles]⟩

theorem Fills.append {b x y : String} {as bs : List String} (ha : Fills a as x) (hb : Fills b bs y) :
    Fills (a ++ " " ++ b) (as ++ bs) (x ++ " " ++ y) := by
  have happart : IsApart (' ' :: b.toList) := by simp [IsApart]
  have htext : (a ++ " " ++ b).toList = a.toList ++ ' ' :: b.toList := by simp
  refine ⟨?_, ?_⟩
  · rw [htext, holes_append _ happart, holes, ha.holes_eq, hb.holes_eq, List.length_append] <;> simp
  · rw [htext, fillHoles_append ha.holes_eq happart, fillHoles, ha.fill_eq, hb.fill_eq] <;> simp

theorem fills_join (ps : List (String × List String × String)) (h : ∀ p ∈ ps, Fills p.1 p.2.1 p.2.2) :
    Fills (Text.join " " (ps.map (·.1))) (ps.flatMap (·.2.1)) (Text.join " " (ps.map (·.2.2))) := by
  induction ps with
  | nil => exact ⟨rfl, rfl⟩
  | cons p ps ih =>
    obtain ⟨hp, hps⟩ := List.forall_mem_cons.1 h
    cases ps with
    | nil => simpa [Text.join] using hp
    | cons q ps =>
      have hjoin := hp.append (ih hps)
      simpa [Text.join, String.intercalate_cons_cons] using hjoin

theorem escapeTemplate_plain (h : '%' ∉ text.toList) : escapeTemplate text = text := by
  have hchars : ∀ c ∈ text.toList, (if c = '%' then ['%', '%'] else [c]) = [c] := by
    intro c hc
    rw [if_neg]
    rintro rfl
    exact h hc
  rw [escapeTemplate, List.flatMap_congr hchars, List.flatMap_singleton', String.ofList_toList]

theorem fills_plain (h : '%' ∉ text.toList) : Fills text [] text := by
  have hfills := fills_escapeTemplate text
  rwa [escapeTemplate_plain h] at hfills

@[simp] theorem fills_word (h : '%' ∉ text.toList) : Fills (word text).1 (word text).2.1 (word text).2.2 := fills_plain h

namespace Instruction

theorem render_literal {args : List Name} (hargs : ∀ n ∈ args, t.Knows n)
    (h : Fills template (args.map (Name.textIn t)) text) : (literal template args).render t = (.ok text, t) := by
  have hn : ¬ placeholders template.toList ≠ args.length := by simp [placeholders_eq_holes, h.holes_eq]
  simp only [render]
  rw [if_neg hn, bind_apply, resolveArgs_known hargs, andThen_ok, h.fill_eq_ok]
  rfl

/-- An instruction becomes a text, if its symbols have texts. -/
def Spells (t : SymbolTable) (i : Instruction) (text : String) : Prop :=
  (∀ v ∈ i.symbols, t.Knows (.sym v)) → i.render t = (.ok text, t)

theorem spells_literal {args : List Name} (h : Fills template (args.map (Name.textIn t)) text) :
    Spells t (literal template args) text := fun hknows ↦ render_literal (SymbolTable.knows_of_collect hknows) h

theorem spells_comment (t : SymbolTable) (text : String) : Spells t (comment text) ("\n# " ++ text) :=
  spells_literal (fills_escapeTemplate _)

theorem spells_call (t : SymbolTable) (path : Path) : Spells t (call ⟨path, none⟩) (Machine.callLine path.joined) := by
  intro _
  change (Except.ok ("function " ++ path.joined), t) = _
  simp [Machine.callLine, Text.join, String.intercalate_cons_cons]

theorem Spells.composed {j : Instruction} {b : String} (hi : Spells t i a) (hj : Spells t j b) :
    Spells t (composed [i, j]) (a ++ " " ++ b) := by
  intro hknows
  simp only [symbols, symbolsOf, List.append_nil, List.forall_mem_append] at hknows
  simp only [render, renderAll, bind_apply, hi hknows.1, hj hknows.2, andThen_ok, pure_apply]
  rfl

theorem mem_symbolsOf {v : Symbol} (hi : i ∈ is) (hv : v ∈ i.symbols) : v ∈ symbolsOf is := by
  induction is with
  | nil => nomatch hi
  | cons j is ih =>
    rw [symbolsOf, List.mem_append]
    rcases List.mem_cons.1 hi with rfl | hi
    · exact .inl hv
    · exact .inr (ih hi)

theorem Spells.textIn (h : Spells t i text) (hknown : Known t is) (hi : i ∈ is) : i.textIn t = text :=
  textIn_of_render (h fun v hv ↦ hknown v (mem_symbolsOf hi hv))

/-- Instructions become texts, where comments are left out. -/
inductive Writes (t : SymbolTable) : List Instruction → List String → Prop
  | nil : Writes t [] []
  | line {i : Instruction} {is : List Instruction} {l : String} {ls : List String} (hi : Spells t i l)
      (his : Writes t is ls) : Writes t (i :: is) (l :: ls)
  | comment {is : List Instruction} {l : String} {ls : List String} (hl : Machine.commandsOf ("\n# " ++ l) = [])
      (his : Writes t is ls) : Writes t (comment l :: is) ls

end Instruction

def Condition.textIn (t : SymbolTable) (c : Condition) : String :=
  Text.join " " (c.parts.map (Name.textIn t))

/-- The texts of names of which the literal ones stand for themselves; `texts` are those of the others. -/
def Name.insertLiterals : List Name → List String → List String
  | .lit text :: ns, texts => text :: insertLiterals ns texts
  | .sym _ :: ns, text :: texts => text :: insertLiterals ns texts
  | .sym _ :: _, [] | [], _ => []

theorem Name.exists_pieces (h : texts.length = (Condition.args ⟨ns⟩).length) :
    ∃ ps : List (String × List String × String), (∀ p ∈ ps, Fills p.1 p.2.1 p.2.2) ∧
      (ns.map fun
        | .lit text => escapeTemplate text
        | .sym _ => "%s") = ps.map (·.1) ∧ ps.flatMap (·.2.1) = texts ∧ ps.map (·.2.2) = insertLiterals ns texts := by
  induction ns generalizing texts with
  | nil =>
    obtain rfl : texts = [] := List.length_eq_zero_iff.1 h
    exact ⟨[], by simp, rfl, rfl, rfl⟩
  | cons n ns ih =>
    cases n with
    | lit text =>
      obtain ⟨ps, hps, htemplate, hargs, htexts⟩ := ih h
      refine ⟨(escapeTemplate text, [], text) :: ps, List.forall_mem_cons.2 ⟨fills_escapeTemplate text, hps⟩, ?_, ?_, ?_⟩
      · rw [List.map_cons, List.map_cons, htemplate]
      · rw [List.flatMap_cons, hargs, List.nil_append]
      · rw [List.map_cons, htexts, insertLiterals]
    | sym v =>
      obtain ⟨text, texts, rfl⟩ := List.exists_of_length_succ texts h
      obtain ⟨ps, hps, htemplate, hargs, htexts⟩ := ih (Nat.succ.inj h)
      refine ⟨("%s", [text], text) :: ps, List.forall_mem_cons.2 ⟨fills_hole text, hps⟩, ?_, ?_, ?_⟩
      · rw [List.map_cons, List.map_cons, htemplate]
      · rw [List.flatMap_cons, hargs, List.singleton_append]
      · rw [List.map_cons, htexts, insertLiterals]

theorem Condition.fills_texts {c : Condition} (h : texts.length = c.args.length) :
    Fills c.template texts (Text.join " " (Name.insertLiterals c.parts texts)) := by
  obtain ⟨ps, hps, htemplates, rfl, htexts⟩ := Name.exists_pieces h
  have htemplate : c.template = Text.join " " (ps.map (·.1)) := congrArg (Text.join " ") htemplates
  rw [← htexts, htemplate]
  exact fills_join ps hps

namespace Graph

open Machine Instruction

variable {v : Score} {c : Condition}

theorem spells_scoreInstruction (t : SymbolTable) (v : Score) {w m : String} (hw : '%' ∉ w.toList) (hm : '%' ∉ m.toList) :
    Spells t (scoreInstruction w v m) (scoreLine w (v.player.textIn t) (v.objective.textIn t) m) := by
  have htemplate : "scoreboard players " ++ w ++ " %s %s " ++ m =
      Text.join " " ["scoreboard", "players", w, "%s", "%s", m] := by
    simp [Text.join, String.intercalate_cons_cons, ← String.toList_inj]
  rw [scoreInstruction, htemplate]
  exact spells_literal (fills_join [word "scoreboard", word "players", word w, hole (v.player.textIn t),
    hole (v.objective.textIn t), word m] (by simp [hw, hm]))

end Graph

namespace Machine

open Text

variable {cond p word : String} {sense : Bool}

/-- A text is on one line and neither starts nor ends with a blank, nor starts a comment. -/
structure IsLine (text : String) : Prop where
  unbroken : '\n' ∉ text.toList
  start : ∃ a, text.toList.head? = some a ∧ isBlank a = false ∧ a ≠ '#'
  stop : ∃ z, text.toList.getLast? = some z ∧ isBlank z = false

theorem IsLine.commandsOf_eq (h : IsLine text) : commandsOf text = [text] := by
  obtain ⟨a, ha, hab, hhash⟩ := h.start
  obtain ⟨z, hz, hzb⟩ := h.stop
  exact commandsOf_eq_self h.unbroken ha hz hab hzb hhash

theorem join_cons_append (a : String) (bs : List String) (c : String) :
    join " " (a :: (bs ++ [c])) = a ++ " " ++ join " " (bs ++ [c]) := by
  cases bs <;> simp [join, String.intercalate_cons_cons]

theorem isLine_join {c : String} (bs : List String) (ha : IsLine a) (hbs : ∀ b ∈ bs, '\n' ∉ b.toList) (hc : IsLine c) :
    IsLine (join " " (a :: (bs ++ [c]))) := by
  have htail : '\n' ∉ (join " " (bs ++ [c])).toList ∧
      ∃ z, (join " " (bs ++ [c])).toList.getLast? = some z ∧ isBlank z = false := by
    induction bs with
    | nil => simpa [join] using ⟨hc.unbroken, hc.stop⟩
    | cons b bs ih =>
      obtain ⟨hb, hbs⟩ := List.forall_mem_cons.1 hbs
      obtain ⟨hbreak, z, hz, hzb⟩ := ih hbs
      rw [List.cons_append, join_cons_append]
      refine ⟨by simp [hb, hbreak], z, ?_, hzb⟩
      rw [String.toList_append, List.getLast?_append, hz]
      rfl
  obtain ⟨hbreak, z, hz, hzb⟩ := htail
  obtain ⟨x, hx, hxb, hhash⟩ := ha.start
  rw [join_cons_append]
  refine ⟨by simp [ha.unbroken, hbreak], ⟨x, ?_, hxb, hhash⟩, z, ?_, hzb⟩
  · rw [String.toList_append, String.toList_append, List.head?_append, List.head?_append, hx]
    rfl
  · rw [String.toList_append, List.getLast?_append, hz]
    rfl

theorem IsName.isLine (hp : IsName p) : IsLine p := by
  have hchar (c : Char) (hc : c ∈ p.toList) : isBlank c = false ∧ c ≠ '#' := by
    have h := hp.isNameChar c hc
    simp only [Machine.isNameChar, Bool.and_eq_true, Bool.not_eq_true', bne_iff_ne] at h
    exact ⟨h.1.1.2, h.2⟩
  have hne : p.toList ≠ [] := fun h ↦ hp.1 (String.toList_eq_nil_iff.1 h)
  refine ⟨fun hmem ↦ ?_, ⟨_, List.head?_eq_some_head hne, hchar _ (List.head_mem hne)⟩,
    ⟨_, List.getLast?_eq_some_getLast hne, (hchar _ (List.getLast_mem hne)).1⟩⟩
  have := (hchar _ hmem).1
  simp [isBlank] at this

theorem isLine_word (h : word.toList.all isNameChar = true) (hne : word ≠ "") : IsLine word :=
  IsName.isLine ⟨hne, h⟩

theorem isLine_scoreLine {o n : String} (hword : IsName word) (hp : IsName p) (ho : IsName o) (hn : IsName n) :
    IsLine (scoreLine word p o n) := by
  refine isLine_join ["players", word, p, o] (isLine_word rfl (by decide)) ?_ hn.isLine
  simp only [List.forall_mem_cons, hword.isLine.unbroken, hp.isLine.unbroken, ho.isLine.unbroken]
  simp

theorem isLine_callLine {path : String} (hp : IsName path) : IsLine (callLine path) :=
  isLine_join [] (isLine_word rfl (by decide)) (by simp) hp.isLine

end Machine

theorem Instruction.Writes.lines_eq {lines : List String} (h : Writes t is lines) (hknown : Known t is)
    (hlines : ∀ l ∈ lines, Machine.IsLine l) : (is.map (textIn t)).flatMap Machine.commandsOf = lines := by
  induction h with
  | nil => rfl
  | line hi _ ih =>
    obtain ⟨hline, hlines⟩ := List.forall_mem_cons.1 hlines
    rw [List.map_cons, List.flatMap_cons, hi.textIn hknown List.mem_cons_self, hline.commandsOf_eq,
      ih (fun v hv ↦ hknown v (List.mem_append_right _ hv)) hlines]
    rfl
  | comment hi _ ih =>
    rw [List.map_cons, List.flatMap_cons, (spells_comment t _).textIn hknown List.mem_cons_self, hi,
      ih (fun v hv ↦ hknown v (List.mem_append_right _ hv)) hlines]
    rfl

end CommandPack
