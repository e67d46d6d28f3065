import Mathlib
import CommandPack.Document
import CommandPack.Proofs.Dictionary

/-!
Documents without problems. Reading goes on after a problem and leaves out or keeps what it has, so only if it
met none is a program whole: then nothing of the document was left out, all of it is well-formed, and statements
are nested no deeper than is allowed.
-/

namespace CommandPack

variable {ss : List Stmt} {depth : Nat}

namespace Yaml.Node

/-- The first value that entries have under a key. -/
def lookup (key : String) (es : List (Yaml.Node × Yaml.Node)) : Option Yaml.Node :=
  (es.find? fun e ↦ e.1.text == key).map (·.2)

/-- What a mapping has under a key. -/
def valueAt? (key : String) : Yaml.Node → Option Yaml.Node
  | .mapping _ _ es => lookup key es
  | _ => none

def listed : Yaml.Node → List Yaml.Node
  | .sequence _ _ items => items
  | _ => []

/-- The items that a mapping lists under a key. -/
def itemsAt (key : String) (n : Yaml.Node) : List Yaml.Node := ((n.valueAt? key).map listed).getD []

end Yaml.Node

mutual

/-- How many branches and loops are around the innermost parts of a statement, itself included. -/
def Stmt.nesting : Stmt → Nat
  | .loop _ _ body => nestingOf body + 1
  | .branch _ _ yes none => nestingOf yes + 1
  | .branch _ _ yes (some no) => max (nestingOf yes) (nestingOf no) + 1
  | _ => 0

def nestingOf : List Stmt → Nat
  | [] => 0
  | s :: ss => max s.nesting (nestingOf ss)

end

/-- The key that a statement is written under. -/
def Stmt.keyword : Stmt → String
  | .set .. => "set"
  | .add .. => "add"
  | .op .. => "op"
  | .loop .. => "while"
  | .branch .. => "if"
  | .call .. => "call"
  | .leave .. => "return"
  | .command .. => "cmd"
  | .print .. => "print"
  | .create .. => "new"

theorem nestingOf_le (h : ∀ s ∈ ss, s.nesting ≤ depth) : nestingOf ss ≤ depth := by
  induction ss with
  | nil => exact Nat.zero_le _
  | cons s ss ih =>
    rw [nestingOf]
    exact max_le (h s List.mem_cons_self) (ih fun s' hs' ↦ h s' (List.mem_cons_of_mem s hs'))

namespace Document

variable {n : Yaml.Node} {cs : List Char} {es : List (Yaml.Node × Yaml.Node)} {name what : String}
  {names : List (String × Bool)} {args : Arguments} {ns : List Yaml.Node}

/-- A letter or underscore, then letters, digits and underscores. -/
def IdentForm (cs : List Char) : Prop :=
  ∃ c rest, cs = c :: rest ∧ (c.isAlpha ∨ c = '_') ∧ ∀ d ∈ rest, d.isAlphanum ∨ d = '_'

/-- An identifier, or two with a dot between them. -/
def RefForm (cs : List Char) : Prop :=
  IdentForm cs ∨ ∃ a b, cs = a ++ '.' :: b ∧ IdentForm a ∧ IdentForm b

/-- Digits, perhaps with a minus sign before them. -/
def WholeForm (cs : List Char) : Prop :=
  ∃ digits, (cs = digits ∨ cs = '-' :: digits) ∧ digits ≠ [] ∧ ∀ d ∈ digits, d.isDigit

/-- A number, or two dots with a number on one side or on both. -/
def RangeForm (cs : List Char) : Prop :=
  WholeForm cs ∨ (∃ a, cs = a ++ ['.', '.'] ∧ WholeForm a) ∨ (∃ b, cs = '.' :: '.' :: b ∧ WholeForm b) ∨
    ∃ a b, cs = a ++ '.' :: '.' :: b ∧ WholeForm a ∧ WholeForm b

theorem identForm_of_isIdent (h : isIdent name = true) : IdentForm name.toList := by
  rw [isIdent] at h
  cases hchars : name.toList with
  | nil => simp [hchars, isIdentChars] at h
  | cons c rest =>
    simp only [hchars, isIdentChars, isIdentStart, Bool.and_eq_true, Bool.or_eq_true, beq_iff_eq,
      List.all_eq_true] at h
    exact ⟨c, rest, rfl, h.1, h.2⟩

theorem toList_of_cut? {sep : Char} {s a b : String} (h : Text.cut? sep s = some (a, b)) :
    s.toList = a.toList ++ sep :: b.toList := by
  simp only [Text.cut?, List.span_eq_takeWhile_dropWhile] at h
  cases hrest : s.toList.dropWhile (· != sep) with
  | nil => simp [hrest] at h
  | cons c after =>
    simp only [hrest, Option.some.injEq, Prod.mk.injEq] at h
    have hc : c = sep := by
      have hhead := List.head?_dropWhile_not (· != sep) s.toList
      simpa [hrest] using hhead
    have hall := List.takeWhile_append_dropWhile (p := (· != sep)) (l := s.toList)
    rw [hrest, hc] at hall
    rw [← hall, ← h.1, ← h.2, String.toList_ofList, String.toList_ofList]

theorem refForm_of_isRef (h : isRef name = true) : RefForm name.toList := by
  rw [isRef] at h
  split at h
  · exact .inl (identForm_of_isIdent h)
  · rename_i a b hcut
    rw [Bool.and_eq_true] at h
    exact .inr ⟨_, _, toList_of_cut? hcut, identForm_of_isIdent h.1, identForm_of_isIdent h.2⟩

theorem wholeForm_of_isWhole (h : isWhole cs = true) : WholeForm cs := by
  simp only [isWhole, Bool.and_eq_true, Bool.not_eq_true', List.isEmpty_eq_false_iff, List.all_eq_true] at h
  refine ⟨_, ?_, h⟩
  cases hlead : Text.dropLead? ['-'] cs with
  | none => exact .inl rfl
  | some digits =>
    cases cs with
    | nil => cases hlead
    | cons c cs =>
      simp only [Text.dropLead?] at hlead
      split at hlead
      · rename_i hc
        cases hlead
        exact .inr (by rw [← hc, Option.getD_some])
      · cases hlead

theorem eq_append_of_dropLead? {lead rest : List Char} (h : Text.dropLead? lead cs = some rest) :
    cs = lead ++ rest := by
  induction lead generalizing cs with
  | nil =>
    cases h
    rfl
  | cons a lead ih =>
    cases cs with
    | nil => cases h
    | cons c cs =>
      simp only [Text.dropLead?] at h
      split at h
      · rename_i hac
        rw [ih h, hac, List.cons_append]
      · cases h

theorem eq_append_of_cutText? {sep a b : List Char} (h : Text.cutText? sep cs = some (a, b)) : cs = a ++ sep ++ b := by
  induction cs generalizing a with
  | nil =>
    simp only [Text.cutText?] at h
    split at h
    · rename_i hsep
      cases h
      simp [List.isEmpty_iff.1 hsep]
    · cases h
  | cons c cs ih =>
    simp only [Text.cutText?] at h
    split at h
    · rename_i after hlead
      cases h
      simpa using eq_append_of_dropLead? hlead
    · obtain ⟨⟨before, after⟩, hcut, heq⟩ := Option.map_eq_some_iff.1 h
      cases heq
      rw [ih hcut]
      simp

theorem rangeForm_of_isRange {s : String} (h : isRange s = true) : RangeForm s.toList := by
  rw [isRange] at h
  split at h
  · exact .inl (wholeForm_of_isWhole h)
  · rename_i b hcut
    exact .inr (.inr (.inl ⟨b, by simpa using eq_append_of_cutText? hcut, wholeForm_of_isWhole h⟩))
  · rename_i a _ hcut
    exact .inr (.inl ⟨a, by simpa using eq_append_of_cutText? hcut, wholeForm_of_isWhole h⟩)
  · rename_i a b _ _ hcut
    rw [Bool.and_eq_true] at h
    refine .inr (.inr (.inr ⟨a, b, ?_, wholeForm_of_isWhole h.1, wholeForm_of_isWhole h.2⟩))
    simpa using eq_append_of_cutText? hcut

variable {α β : Type} {s : Settings} {P : α → Prop} {Q : β → Prop} {x : Reading α}

/-- Problems are only added; if none is, the result has a property. -/
def Vouches (s : Settings) (x : Reading α) (P : α → Prop) : Prop :=
  ∀ problems, ∃ new, (x s problems).2 = problems ++ new ∧ (new = #[] → P (x s problems).1)

/-- Unless a problem is met, something with a property is found. -/
def Gives (s : Settings) (x : Reading (Option α)) (P : α → Prop) : Prop := Vouches s x fun o ↦ ∃ a, o = some a ∧ P a

namespace Vouches

theorem pure {a : α} (h : P a) : Vouches s (Pure.pure a) P := fun problems ↦ ⟨#[], by simp; rfl, fun _ ↦ h⟩

/-- What the first part vouches for may be used for the result, but the rest only adds problems in any case. -/
theorem bind {f : α → Reading β} (hx : Vouches s x P) (hf : ∀ a, Vouches s (f a) fun b ↦ P a → Q b) :
    Vouches s (x >>= f) Q := by
  intro problems
  obtain ⟨new, hnew, hP⟩ := hx problems
  obtain ⟨more, hmore, hQ⟩ := hf (x s problems).1 (x s problems).2
  refine ⟨new ++ more, ?_, fun h ↦ ?_⟩
  · rw [← Array.append_assoc, ← hnew]
    exact hmore
  · obtain ⟨rfl, rfl⟩ := Array.append_eq_empty_iff.1 h
    exact hQ rfl (hP rfl)

theorem and {P' : α → Prop} (hx : Vouches s x P) (hx' : Vouches s x P') : Vouches s x fun a ↦ P a ∧ P' a := by
  intro problems
  obtain ⟨new, hnew, hP⟩ := hx problems
  obtain ⟨new', hnew', hP'⟩ := hx' problems
  have heq : new' = new := (Array.append_right_inj problems).1 (hnew'.symm.trans hnew)
  exact ⟨new, hnew, fun h ↦ ⟨hP h, hP' (heq.trans h)⟩⟩

theorem weaken {P' : α → Prop} (hx : Vouches s x P) (h : ∀ a, P a → P' a) : Vouches s x P' := fun problems ↦
  (hx problems).imp fun _ hnew ↦ ⟨hnew.1, fun he ↦ h _ (hnew.2 he)⟩

theorem map {f : α → β} (hx : Vouches s x fun a ↦ Q (f a)) : Vouches s (f <$> x) Q := fun problems ↦ hx problems

theorem read : Vouches s (MonadReader.read : Reading Settings) fun a ↦ a = s := fun problems ↦
  ⟨#[], by simp; rfl, fun _ ↦ rfl⟩

theorem reportNoted (pos : Position) (code message note : String) {P : Unit → Prop} :
    Vouches s (Document.reportNoted pos code message note) P := fun problems ↦
  ⟨#[_], Array.push_eq_append, fun h ↦ absurd h (by simp)⟩

theorem report (n : Yaml.Node) (code message : String) {P : Unit → Prop} : Vouches s (report n code message) P :=
  reportNoted _ _ _ _

theorem reportKey (key : Yaml.Node) (what : String) (allowed : List String) {P : Unit → Prop} :
    Vouches s (reportKey key what allowed) P := reportNoted _ _ _ _

/-- Once a problem is reported, nothing is left to show of what comes after it. -/
theorem after_report {x : Reading Unit} {f : Unit → Reading β} (hx : Vouches s x fun _ ↦ False)
    (hf : ∀ a, Vouches s (f a) fun _ ↦ True) : Vouches s (x >>= f) Q :=
  hx.bind fun a ↦ (hf a).weaken fun _ _ h ↦ h.elim

theorem reported_pure {x : Reading Unit} {b : β} (hx : Vouches s x fun _ ↦ False) :
    Vouches s (x >>= fun _ ↦ Pure.pure b) Q :=
  hx.after_report fun _ ↦ pure trivial

theorem reported {n : Yaml.Node} {code message : String} {b : β} :
    Vouches s (Document.report n code message >>= fun _ ↦ Pure.pure b) Q := (report _ _ _).reported_pure

theorem mapM {f : α → Reading β} {R : α → β → Prop} {as : List α} (hf : ∀ a ∈ as, Vouches s (f a) (R a)) :
    Vouches s (as.mapM f) (List.Forall₂ R as) := by
  induction as with
  | nil =>
    rw [List.mapM_nil]
    exact pure .nil
  | cons a as ih =>
    rw [List.mapM_cons]
    refine (hf a List.mem_cons_self).bind fun b ↦ ?_
    refine (ih fun a' ha' ↦ hf a' (List.mem_cons_of_mem a ha')).bind fun bs ↦ ?_
    exact pure fun hbs hb ↦ .cons hb hbs

theorem forM {f : α → Reading Unit} (hf : ∀ a, Vouches s (f a) fun _ ↦ False) {as : List α} :
    Vouches s (as.forM f) fun _ ↦ as = [] := by
  induction as with
  | nil => exact pure rfl
  | cons a as ih => exact (hf a).after_report fun _ ↦ ih.weaken fun _ _ ↦ trivial

/-- Without a problem nothing is left out. -/
theorem filterMapM {f : α → Reading (Option β)} {R : α → β → Prop} {as : List α}
    (hf : ∀ a ∈ as, Gives s (f a) (R a)) :
    Vouches s (as.filterMapM f) (List.Forall₂ R as) := by
  have hloop : ∀ (as : List α) (acc : List β), (∀ a ∈ as, Gives s (f a) (R a)) →
      Vouches s (List.filterMapM.loop f as acc) fun bs ↦ ∃ rest, bs = acc.reverse ++ rest ∧ List.Forall₂ R as rest := by
    intro as
    induction as with
    | nil => exact fun acc _ ↦ pure ⟨[], by simp, .nil⟩
    | cons a as ih =>
      intro acc hf
      have hrest (acc : List β) := ih acc fun a' ha' ↦ hf a' (List.mem_cons_of_mem a ha')
      refine bind (hf a List.mem_cons_self) fun o ↦ ?_
      cases o with
      | none =>
        refine (hrest acc).weaken fun bs _ hb ↦ ?_
        obtain ⟨b, hb, -⟩ := hb
        cases hb
      | some b =>
        refine (hrest (b :: acc)).weaken fun bs hbs hb ↦ ?_
        obtain ⟨rest, rfl, hrest⟩ := hbs
        obtain ⟨_, ⟨⟩, hab⟩ := hb
        exact ⟨b :: rest, by simp, .cons hab hrest⟩
  refine (hloop as [] hf).weaken fun bs hbs ↦ ?_
  obtain ⟨rest, rfl, hrest⟩ := hbs
  exact hrest

/-- An invariant of what was made of the items so far. -/
theorem foldlM {f : β → α → Reading β} {I : List α → β → Prop} {b : β} (hb : I [] b)
    (hf : ∀ done a b, Vouches s (f b a) fun b' ↦ I done b → I (done ++ [a]) b') (as : List α) :
    Vouches s (as.foldlM f b) (I as) := by
  have hgen : ∀ (as done : List α) (b : β), Vouches s (as.foldlM f b) fun b' ↦ I done b → I (done ++ as) b' := by
    intro as
    induction as with
    | nil => exact fun done b ↦ pure fun h ↦ by simpa using h
    | cons a as ih =>
      intro done b
      rw [List.foldlM_cons]
      refine (hf done a b).bind fun b' ↦ (ih (done ++ [a]) b').weaken fun b'' h hstep hI ↦ ?_
      simpa using h (hstep hI)
  exact (hgen as [] b).weaken fun b' h ↦ by simpa using h hb

end Vouches

namespace Gives

variable {x : Reading (Option α)} {f : Option α → Reading β}

theorem some {a : α} (h : P a) : Gives s (Pure.pure (Option.some a)) P := .pure ⟨a, rfl, h⟩

theorem weaken {P' : α → Prop} (hx : Gives s x P) (h : ∀ a, P a → P' a) : Gives s x P' :=
  Vouches.weaken hx fun _ ⟨a, ho, ha⟩ ↦ ⟨a, ho, h a ha⟩

theorem bind (hx : Gives s x P) (hsome : ∀ a, Vouches s (f (Option.some a)) fun b ↦ P a → Q b)
    (hnone : ∃ b, f none = Pure.pure b := by exact ⟨_, rfl⟩) : Vouches s (x >>= f) Q := by
  refine Vouches.bind hx fun o ↦ ?_
  cases o with
  | none =>
    obtain ⟨b, hb⟩ := hnone
    rw [hb]
    exact .pure fun ⟨_, h, _⟩ ↦ nomatch h
  | some a =>
    refine (hsome a).weaken ?_
    rintro b hb ⟨_, ⟨⟩, ha⟩
    exact hb ha

end Gives

theorem vouches_dropSeen (what : String) (seen : List String) (es : List (Yaml.Node × Yaml.Node)) :
    Vouches s (dropSeen what seen es) fun es' ↦
      es' = es ∧ (es.map (·.1.text)).Nodup ∧ ∀ e ∈ es, e.1.text ∉ seen := by
  induction es generalizing seen with
  | nil => exact .pure ⟨rfl, by simp, by simp⟩
  | cons e es ih =>
    obtain ⟨k, v⟩ := e
    rw [dropSeen]
    split
    · exact (Vouches.report _ _ _).after_report fun _ ↦ (ih seen).weaken fun _ _ ↦ trivial
    · rename_i hnew
      refine (ih (k.text :: seen)).bind fun es' ↦ .pure ?_
      rintro ⟨rfl, hnodup, hseen⟩
      have hk : k.text ∉ es'.map (·.1.text) := by
        intro hmem
        obtain ⟨e, he, hek⟩ := List.mem_map.1 hmem
        exact hseen e he (hek ▸ List.mem_cons_self)
      refine ⟨rfl, List.nodup_cons.2 ⟨hk, hnodup⟩, fun e he ↦ ?_⟩
      rcases List.mem_cons.1 he with rfl | he
      · simpa using hnew
      · exact fun hmem ↦ hseen e he (List.mem_cons_of_mem _ hmem)

/-- The entries of a mapping without repeated keys. -/
def IsEntries (n : Yaml.Node) (es : List (Yaml.Node × Yaml.Node)) : Prop :=
  (∃ pos tag, n = .mapping pos tag es) ∧ (es.map (·.1.text)).Nodup

theorem IsEntries.valueAt? (h : IsEntries n es) (key : String) : n.valueAt? key = Yaml.Node.lookup key es := by
  obtain ⟨⟨pos, tag, rfl⟩, -⟩ := h
  rfl

theorem IsEntries.itemsAt (h : IsEntries n es) (key : String) :
    n.itemsAt key = ((Yaml.Node.lookup key es).map Yaml.Node.listed).getD [] := by
  rw [Yaml.Node.itemsAt, h.valueAt?]

theorem vouches_entries? : Gives s (entries? what n) (IsEntries n) := by
  unfold entries?
  split
  · rename_i pos tag es
    refine Vouches.map ((vouches_dropSeen what [] es).weaken ?_)
    rintro _ ⟨rfl, hnodup, -⟩
    exact ⟨_, rfl, ⟨pos, tag, rfl⟩, hnodup⟩
  · exact .reported

theorem vouches_entries : Vouches s (entries what n) (IsEntries n) := by
  exact vouches_entries?.bind fun es ↦ .pure id

theorem vouches_text : Vouches s (text what n) fun _ ↦ True := by
  unfold text
  split
  · split
    · exact .reported
    · exact .pure trivial
  · exact .reported

theorem vouches_texts : Vouches s (texts what n) fun _ ↦ True := by
  unfold texts
  split
  · exact vouches_text.bind fun _ ↦ .pure fun _ ↦ trivial
  · exact (Vouches.mapM fun n _ ↦ vouches_text).weaken fun _ _ ↦ trivial
  · exact .reported

theorem vouches_items : Vouches s (items what n) fun ns ↦ ns = n.listed := by
  unfold items
  split
  · exact .pure rfl
  · exact .pure rfl
  · exact .reported

/-- A variable or a member of one. -/
def IsReference (t : Term) : Prop := ∃ name, t.kind = .ident name ∧ RefForm name.toList

/-- The tests that a program may have. -/
inductive FairTest : Test → Prop
  | present {pos : Position} {left : Term} (hleft : IsReference left) : FairTest { pos, left, op := "exists" }
  | within {pos : Position} {left : Term} {range : String} (hleft : IsReference left)
      (hrange : RangeForm range.toList) : FairTest { pos, left, op := "matches", range }
  | compare {pos : Position} {left right : Term} {op : String} (hleft : IsReference left)
      (hop : op ∈ ["<", "<=", "=", ">=", ">"])
      (hright : IsReference right ∨ ∃ n : Int64, right.kind = .int n ∧ -2 ^ 31 ≤ n.toInt ∧ n.toInt < 2 ^ 31) :
      FairTest { pos, left, op, right := some right }

theorem vouches_ident : Gives s (ident n name) IsReference := by
  unfold ident
  split
  · rename_i href
    exact .some ⟨name, rfl, refForm_of_isRef href⟩
  · exact .reported

theorem vouches_term : Gives s (term n) fun t ↦ ∀ name, t.kind = .ident name → RefForm name.toList := by
  unfold term
  split
  · split
    · split
      · exact .some fun _ h ↦ nomatch h
      · exact .reported
    · split
      · exact .some fun _ h ↦ nomatch h
      · exact .reported
    · split
      · exact .some fun _ h ↦ nomatch h
      · refine vouches_ident.weaken ?_
        rintro t ⟨name, hname, hform⟩ name' hname'
        cases hname.symm.trans hname'
        exact hform
    · exact .reported
  · exact .reported

theorem vouches_varRef : Gives s (varRef n) IsReference := by
  unfold varRef
  refine vouches_term.bind fun t ↦ ?_
  dsimp only
  split
  · rename_i name hname
    exact .pure fun hform ↦ ⟨_, rfl, name, hname, hform name hname⟩
  · exact .reported

theorem toInt_ofInt_of_readInt? {text : String} {v : Int} (h : Decimal.readInt? 32 text = some v) :
    -2 ^ 31 ≤ (Int64.ofInt v).toInt ∧ (Int64.ofInt v).toInt < 2 ^ 31 := by
  obtain ⟨n, -, hn⟩ := Option.bind_eq_some_iff.1 h
  have hv : -2 ^ 31 ≤ v ∧ v < 2 ^ 31 := by
    simp only [Decimal.signedWithin?] at hn
    split at hn <;> split at hn <;> simp_all <;> omega
  rw [Int64.toInt_ofInt_of_le (by omega) (by omega)]
  exact hv

theorem vouches_testRight (n : Yaml.Node) {pos : Position} {left : Term} {op : String}
    (hop : op ∈ ["<", "<=", "=", ">=", ">", "matches"]) (right : String) :
    Vouches s (testRight n { pos, left, op } right) fun o ↦ IsReference left → ∃ t, o = some t ∧ FairTest t := by
  unfold testRight
  split
  · rename_i hmatches
    cases hmatches
    split
    · rename_i hrange
      exact .pure fun hleft ↦ ⟨_, rfl, .within hleft (rangeForm_of_isRange hrange)⟩
    · exact .reported
  · rename_i hmatches
    have hop : op ∈ ["<", "<=", "=", ">=", ">"] := by simp_all
    split
    · rename_i v hv
      exact .pure fun hleft ↦ ⟨_, rfl, .compare hleft hop (.inr ⟨_, rfl, toInt_ofInt_of_readInt? hv⟩)⟩
    · refine vouches_ident.bind fun r ↦ .pure fun hright hleft ↦ ?_
      exact ⟨_, rfl, .compare hleft hop (.inl hright)⟩

theorem mem_comparisons {op meant : String} (h : comparisons.lookup op = some meant) :
    meant ∈ ["<", "<=", "=", ">=", ">", "matches"] := by
  have hall : ∀ e ∈ comparisons, e.2 ∈ ["<", "<=", "=", ">=", ">", "matches"] := by decide
  obtain ⟨before, after, heq, -⟩ := List.lookup_eq_some_iff.1 h
  exact hall (op, meant) (heq ▸ List.mem_append_right _ List.mem_cons_self)

theorem vouches_test : Gives s (test n) FairTest := by
  unfold test
  split
  · split
    · refine vouches_ident.bind fun left ↦ .pure fun hleft ↦ ?_
      exact ⟨_, rfl, .present hleft⟩
    · split
      · rename_i hmeant
        refine vouches_ident.bind fun left ↦ ?_
        exact vouches_testRight _ (mem_comparisons hmeant) _
      · exact .reported
    · exact .reported
  · exact .reported

theorem vouches_knownArguments (what : String) (allowed : List String) (es : List (Yaml.Node × Yaml.Node)) :
    Vouches s (knownArguments what allowed es) fun r ↦ r = (es.map fun e ↦ (e.1.text, e.2), true) := by
  induction es with
  | nil => exact .pure rfl
  | cons e es ih =>
    obtain ⟨k, v⟩ := e
    rw [knownArguments]
    split
    · refine ih.bind fun r ↦ .pure ?_
      rintro rfl
      rfl
    · exact (Vouches.reportKey _ _ _).after_report fun _ ↦ ih.bind fun _ ↦ .pure fun _ ↦ trivial

theorem lookup_map_text (es : List (Yaml.Node × Yaml.Node)) (key : String) :
    (es.map fun e ↦ (e.1.text, e.2)).lookup key = Yaml.Node.lookup key es := by
  induction es with
  | nil => rfl
  | cons e es ih =>
    obtain ⟨k, v⟩ := e
    rw [List.map_cons, List.lookup_cons, Yaml.Node.lookup, List.find?_cons, BEq.comm]
    cases k.text == key with
    | true => rfl
    | false => exact ih

/-- Arguments are what a mapping has under their names, and those that are required are there. -/
structure AreArguments (n : Yaml.Node) (names : List (String × Bool)) (args : Arguments) : Prop where
  lookup (key : String) : args.lookup key = n.valueAt? key
  required {key : String} (hkey : (key, false) ∈ names) : ∃ v, args.lookup key = some v

theorem AreArguments.argument (h : AreArguments n names args) {key : String} (hkey : (key, false) ∈ names) :
    n.valueAt? key = some (argument args key n) := by
  obtain ⟨v, hv⟩ := h.required hkey
  rw [Document.argument, ← h.lookup, hv, Option.getD_some]

theorem AreArguments.itemsAt (h : AreArguments n names args) {key : String} (hkey : (key, false) ∈ names) :
    n.itemsAt key = (Document.argument args key n).listed := by
  rw [Yaml.Node.itemsAt, h.argument hkey, Option.map_some, Option.getD_some]

theorem vouches_arguments : Gives s (arguments n what names) (AreArguments n names) := by
  unfold arguments
  refine vouches_entries?.bind fun es ↦ ?_
  refine (vouches_knownArguments what (names.map (·.1)) es).bind fun r ↦ ?_
  dsimp only
  refine (Vouches.forM fun e ↦ Vouches.report _ _ _).bind fun _ ↦ .pure ?_
  rintro hmissing rfl hes
  have hlookup (key : String) : (es.map fun e ↦ (e.1.text, e.2)).lookup key = n.valueAt? key := by
    rw [lookup_map_text, hes.valueAt?]
  refine ⟨_, by simp [hmissing], hlookup, fun {key} hkey ↦ ?_⟩
  have hnot := List.filter_eq_nil_iff.1 hmissing _ hkey
  simp only [Bool.not_false, Bool.true_and, Option.isNone_iff_eq_none] at hnot
  exact Option.ne_none_iff_exists'.1 hnot

/-- Targets are variables or members of them, and tests are fair, also inside of other statements. -/
inductive FairStmt : Stmt → Prop
  | set {pos : Position} {var value : Term} (hvar : IsReference var) : FairStmt (.set pos var value)
  | add {pos : Position} {var value : Term} (hvar : IsReference var) : FairStmt (.add pos var value)
  | op {pos : Position} {var : Term} {operator : String} {value : Term} (hvar : IsReference var) :
      FairStmt (.op pos var operator value)
  | loop {pos : Position} {t : Test} {body : List Stmt} (htest : FairTest t) (hbody : ∀ s ∈ body, FairStmt s) :
      FairStmt (.loop pos t body)
  | branch {pos : Position} {t : Test} {yes : List Stmt} {no : Option (List Stmt)} (htest : FairTest t)
      (hyes : ∀ s ∈ yes, FairStmt s) (hno : ∀ ss ∈ no, ∀ s ∈ ss, FairStmt s) : FairStmt (.branch pos t yes no)
  | call {pos : Position} {function : String} {arg : Option Term} : FairStmt (.call pos function arg)
  | leave {pos : Position} {value : Option Term} : FairStmt (.leave pos value)
  | command {pos : Position} {text : String} : FairStmt (.command pos text)
  | print {pos : Position} {target : String} {pieces : List Piece} : FairStmt (.print pos target pieces)
  | create {pos : Position} {cls : String} {var : Term} (hvar : IsReference var) : FairStmt (.create pos cls var)

/-- A mapping of one key tells a statement, and tells the statements inside of it one by one. -/
inductive Tells : Yaml.Node → Stmt → Prop
  | simple {pos : Position} {tag : String} {key value : Yaml.Node} {s : Stmt} (hkey : key.text = s.keyword)
      (hpos : key.pos = s.pos) (hs : s.nesting = 0) : Tells (.mapping pos tag [(key, value)]) s
  | loop {pos : Position} {tag : String} {key value : Yaml.Node} {t : Test} {body : List Stmt}
      (hkey : key.text = "while") (hbody : List.Forall₂ Tells (value.itemsAt "body") body) :
      Tells (.mapping pos tag [(key, value)]) (.loop key.pos t body)
  | branch {pos : Position} {tag : String} {key value : Yaml.Node} {t : Test} {yes : List Stmt}
      {no : Option (List Stmt)} (hkey : key.text = "if") (hyes : List.Forall₂ Tells (value.itemsAt "then") yes)
      (helse : no.isSome ↔ (value.valueAt? "else").isSome)
      (hno : ∀ ss ∈ no, List.Forall₂ Tells (value.itemsAt "else") ss) :
      Tells (.mapping pos tag [(key, value)]) (.branch key.pos t yes no)

/-- A node that was read as a statement whose parts are nested no deeper than `depth`. -/
structure ReadsAs (depth : Nat) (n : Yaml.Node) (s : Stmt) : Prop where
  fair : FairStmt s
  shallow : s.nesting ≤ depth
  told : Tells n s

theorem forall_mem_of_forall₂ {R : α → β → Prop} {as : List α} {bs : List β} (h : List.Forall₂ R as bs)
    (hR : ∀ a b, R a b → Q b) : ∀ b ∈ bs, Q b := by
  induction h with
  | nil => exact fun _ hb ↦ nomatch hb
  | cons hab _ ih =>
    intro b' hb'
    rcases List.mem_cons.1 hb' with rfl | hb'
    · exact hR _ _ hab
    · exact ih b' hb'

theorem ReadsAs.forall (h : List.Forall₂ (ReadsAs depth) ns ss) : ∀ s ∈ ss, FairStmt s ∧ s.nesting ≤ depth :=
  forall_mem_of_forall₂ h fun _ _ hs ↦ ⟨hs.fair, hs.shallow⟩

theorem ReadsAs.told_all (h : List.Forall₂ (ReadsAs depth) ns ss) : List.Forall₂ Tells ns ss :=
  h.imp fun _ _ hs ↦ hs.told

section Simple

variable {pos : Position} {tag : String} {key value : Yaml.Node} {depth : Nat}

theorem readsAs_simple {st : Stmt} (hkey : key.text = st.keyword) (hpos : key.pos = st.pos) (hs : st.nesting = 0)
    (hfair : FairStmt st) : ReadsAs depth (.mapping pos tag [(key, value)]) st :=
  ⟨hfair, hs ▸ Nat.zero_le _, .simple hkey hpos hs⟩

theorem vouches_assignment : Gives s (assignment args n) (IsReference ·.1) := by
  unfold assignment
  refine Vouches.bind vouches_varRef fun dst ↦ Vouches.bind vouches_term fun src ↦ .pure ?_
  rintro ⟨t, rfl, -⟩ ⟨v, rfl, hv⟩
  exact ⟨(v, t), rfl, hv⟩

theorem vouches_callee : Vouches s (callee n) fun _ ↦ True := by
  unfold callee
  refine vouches_text.bind fun name ↦ ?_
  split
  · exact .pure fun _ ↦ trivial
  · exact .reported

theorem vouches_callStmt (hkey : key.text = "call") : Gives s (callStmt key.pos value)
    (ReadsAs depth (.mapping pos tag [(key, value)])) := by
  have hcall (function : String) (arg : Option Term) :
      ReadsAs depth (.mapping pos tag [(key, value)]) (.call key.pos function arg) :=
    readsAs_simple hkey rfl rfl .call
  unfold callStmt
  split
  · exact vouches_callee.bind fun _ ↦ .pure fun _ ↦ ⟨_, rfl, hcall _ _⟩
  · refine vouches_arguments.bind fun args ↦ ?_
    refine vouches_callee.bind fun function ↦ ?_
    split
    · exact Vouches.bind vouches_term fun _ ↦ .pure fun _ _ _ ↦ ⟨_, rfl, hcall _ _⟩
    · exact .pure fun _ _ ↦ ⟨_, rfl, hcall _ _⟩

theorem vouches_leaveStmt (hkey : key.text = "return") : Gives s (leaveStmt key.pos value)
    (ReadsAs depth (.mapping pos tag [(key, value)])) := by
  unfold leaveStmt
  split
  · exact .some (readsAs_simple hkey rfl rfl .leave)
  · exact vouches_term.bind fun t ↦ .pure fun _ ↦ ⟨_, rfl, readsAs_simple hkey rfl rfl .leave⟩

theorem vouches_commandStmt (hkey : key.text = "cmd") : Gives s (commandStmt key.pos value)
    (ReadsAs depth (.mapping pos tag [(key, value)])) := by
  unfold commandStmt
  refine vouches_text.bind fun text ↦ ?_
  dsimp only
  split
  · exact .reported
  · exact .pure fun _ ↦ ⟨_, rfl, readsAs_simple hkey rfl rfl .command⟩

theorem vouches_styleValues (es : List (Yaml.Node × Yaml.Node)) : Vouches s (styleValues es) fun _ ↦ True := by
  induction es with
  | nil => exact .pure trivial
  | cons e es ih =>
    obtain ⟨k, v⟩ := e
    rw [styleValues]
    split
    · exact ih.bind fun _ ↦ .pure fun _ ↦ trivial
    · exact (Vouches.report _ _ _).after_report fun _ ↦ ih

theorem vouches_piece : Gives s (piece n) fun _ ↦ True := by
  have hterm (n : Yaml.Node) : Gives s (do return (← term n).map Piece.term) fun _ ↦ True :=
    vouches_term.bind fun t ↦ .pure fun _ ↦ ⟨_, rfl, trivial⟩
  unfold piece
  split
  · refine vouches_entries.bind fun es ↦ (vouches_styleValues es).bind fun values ↦ ?_
    exact .pure fun _ _ ↦ ⟨_, rfl, trivial⟩
  · split
    · exact .some trivial
    · exact hterm _
  · exact hterm _

theorem vouches_pieces : Vouches s (pieces n) fun _ ↦ True := by
  unfold pieces
  split
  · exact (Vouches.filterMapM fun n _ ↦ vouches_piece).weaken fun _ _ ↦ trivial
  · exact Vouches.bind vouches_piece fun _ ↦ .pure fun _ ↦ trivial

theorem vouches_printStmt (hkey : key.text = "print") : Gives s (printStmt key.pos value)
    (ReadsAs depth (.mapping pos tag [(key, value)])) := by
  have hprint (target : String) (n : Yaml.Node) : Gives s (do return some (.print key.pos target (← pieces n)))
      (ReadsAs depth (.mapping pos tag [(key, value)])) :=
    vouches_pieces.bind fun _ ↦ .pure fun _ ↦ ⟨_, rfl, readsAs_simple hkey rfl rfl .print⟩
  unfold printStmt
  split
  · refine vouches_arguments.bind fun args ↦ ?_
    dsimp only
    split
    · exact vouches_text.bind fun target ↦ Vouches.weaken (hprint target _) fun _ h _ _ ↦ h
    · exact Vouches.weaken (hprint "@a" _) fun _ h _ ↦ h
  · exact hprint "@a" _

end Simple

section Nested

variable {nested : Yaml.Node → Yaml.Node → Reading (List Stmt)} {depth : Nat} {pos : Position} {tag : String}
  {key value : Yaml.Node}
  (hnested : ∀ key body, Vouches s (nested key body) fun ss ↦
    0 < depth ∧ List.Forall₂ (ReadsAs (depth - 1)) body.listed ss)

include hnested

theorem vouches_while (hkey : key.text = "while") :
    Gives s (statementOf nested key value) (ReadsAs depth (.mapping pos tag [(key, value)])) := by
  unfold statementOf
  rw [hkey]
  dsimp only
  refine vouches_arguments.bind fun args ↦ ?_
  refine Vouches.bind vouches_test fun t ↦ (hnested _ _).bind fun body ↦ .pure ?_
  rintro ⟨hdepth, hbody⟩ ⟨t, rfl, ht⟩ hargs
  have hall := ReadsAs.forall hbody
  refine ⟨_, rfl, .loop ht fun s hs ↦ (hall s hs).1, ?_, .loop hkey ?_⟩
  · have := nestingOf_le fun s hs ↦ (hall s hs).2
    rw [Stmt.nesting]
    omega
  · rw [hargs.itemsAt (by decide)]
    exact ReadsAs.told_all hbody

theorem vouches_alternative (key : Yaml.Node) (other : Option Yaml.Node) :
    Vouches s (other.mapM (nested key)) fun no ↦ (no.isSome ↔ other.isSome) ∧ ∀ ss ∈ no,
      0 < depth ∧ List.Forall₂ (ReadsAs (depth - 1)) ((other.map Yaml.Node.listed).getD []) ss := by
  cases other with
  | none => exact .pure ⟨by simp, fun _ h ↦ nomatch h⟩
  | some e =>
    refine .map ((hnested key e).weaken fun ss hss ↦ ⟨by simp, ?_⟩)
    rintro _ ⟨⟩
    exact hss

theorem vouches_if (hkey : key.text = "if") :
    Gives s (statementOf nested key value) (ReadsAs depth (.mapping pos tag [(key, value)])) := by
  unfold statementOf
  rw [hkey]
  dsimp only
  refine vouches_arguments.bind fun args ↦ ?_
  refine Vouches.bind vouches_test fun t ↦ (hnested _ _).bind fun yes ↦ ?_
  refine (vouches_alternative hnested _ _).bind fun no ↦ .pure ?_
  rintro ⟨helse, hno⟩ ⟨hdepth, hyes⟩ ⟨t, rfl, ht⟩ hargs
  have hallYes := ReadsAs.forall hyes
  have hallNo : ∀ ss ∈ no, ∀ s ∈ ss, FairStmt s ∧ s.nesting ≤ depth - 1 := fun ss hss ↦ ReadsAs.forall (hno ss hss).2
  refine ⟨_, rfl, .branch ht (fun s hs ↦ (hallYes s hs).1) fun ss hss s hs ↦ (hallNo ss hss s hs).1, ?_,
    .branch hkey ?_ ?_ ?_⟩
  · have hyes := nestingOf_le fun s hs ↦ (hallYes s hs).2
    cases no with
    | none =>
      rw [Stmt.nesting]
      omega
    | some no =>
      have hno := nestingOf_le fun s hs ↦ (hallNo no rfl s hs).2
      rw [Stmt.nesting]
      omega
  · rw [hargs.itemsAt (by decide)]
    exact ReadsAs.told_all hyes
  · rwa [← hargs.lookup]
  · intro ss hss
    rw [Yaml.Node.itemsAt, ← hargs.lookup]
    exact ReadsAs.told_all (hno ss hss).2

theorem vouches_statementOf : Gives s (statementOf nested key value)
    (ReadsAs depth (.mapping pos tag [(key, value)])) := by
  by_cases hwhile : key.text = "while"
  · exact vouches_while hnested hwhile
  by_cases hif : key.text = "if"
  · exact vouches_if hnested hif
  unfold statementOf
  dsimp only
  split
  · rename_i hkey
    refine vouches_arguments.bind fun args ↦ ?_
    exact vouches_assignment.bind fun r ↦ .pure fun hr _ ↦ ⟨_, rfl, readsAs_simple hkey rfl rfl (.set hr)⟩
  · rename_i hkey
    refine vouches_arguments.bind fun args ↦ ?_
    exact vouches_assignment.bind fun r ↦ .pure fun hr _ ↦ ⟨_, rfl, readsAs_simple hkey rfl rfl (.add hr)⟩
  · rename_i hkey
    refine vouches_arguments.bind fun args ↦ ?_
    refine vouches_assignment.bind fun r ↦ ?_
    refine vouches_text.bind fun operator ↦ .pure fun _ hr _ ↦ ?_
    exact ⟨_, rfl, readsAs_simple hkey rfl rfl (.op hr)⟩
  · rename_i hkey
    exact absurd hkey hwhile
  · rename_i hkey
    exact absurd hkey hif
  · rename_i hkey
    exact vouches_callStmt hkey
  · rename_i hkey
    exact vouches_leaveStmt hkey
  · rename_i hkey
    exact vouches_commandStmt hkey
  · rename_i hkey
    exact vouches_printStmt hkey
  · rename_i hkey
    refine vouches_arguments.bind fun args ↦ ?_
    refine vouches_varRef.bind fun dst ↦ ?_
    refine vouches_text.bind fun cls ↦ .pure fun _ hdst _ ↦ ?_
    exact ⟨_, rfl, readsAs_simple hkey rfl rfl (.create hdst)⟩
  · exact (Vouches.reportNoted _ _ _ _).reported_pure

theorem vouches_block (n : Yaml.Node) :
    Vouches s (block nested n) fun ss ↦ List.Forall₂ (ReadsAs depth) n.listed ss := by
  refine vouches_items.bind fun ns ↦ ?_
  have hall : Vouches s (ns.filterMapM (statement nested)) fun ss ↦ List.Forall₂ (ReadsAs depth) ns ss := by
    refine .filterMapM fun n _ ↦ ?_
    unfold statement
    split
    · exact vouches_statementOf hnested
    · exact .reported
  refine hall.weaken ?_
  rintro ss hss rfl
  exact hss

end Nested

theorem vouches_nested (left : Nat) (key body : Yaml.Node) : Vouches s (nested left key body) fun ss ↦
    0 < left ∧ List.Forall₂ (ReadsAs (left - 1)) body.listed ss := by
  induction left generalizing key body with
  | zero => exact Vouches.read.bind fun _ ↦ .reported
  | succ left ih => exact (vouches_block ih body).weaken fun ss hss ↦ ⟨Nat.succ_pos left, hss⟩

/-- The place of a variable is either a score, with nothing but an objective and a class, or somewhere in data. -/
structure FairVar (v : VarDecl) : Prop where
  name : IdentForm v.name.toList
  score : v.kind = .score → v.path = "" ∧ v.type = ""
  data : v.kind ≠ .score → v.path ≠ "" ∧ v.type ≠ "" ∧ v.cls = "" ∧ v.objective = ""

/-- A mapping that was read as a function: nothing of its body was left out. -/
structure ReadsFunction (depth : Nat) (n : Yaml.Node) (f : FunctionDecl) : Prop where
  name : IdentForm f.name.toList
  body : List.Forall₂ (ReadsAs depth) (n.itemsAt "body") f.body

structure ReadsClass (depth : Nat) (n : Yaml.Node) (c : ClassDecl) : Prop where
  name : IdentForm c.name.toList
  members : ∀ m ∈ c.members, IdentForm m.1.toList
  functions : List.Forall₂ (ReadsFunction depth) (n.itemsAt "functions") c.functions

/-- A mapping that was read as a program. -/
structure ReadsProgram (depth : Nat) (n : Yaml.Node) (p : Program) : Prop where
  vars : ∀ v ∈ p.vars, FairVar v
  functions : List.Forall₂ (ReadsFunction depth) (n.itemsAt "functions") p.functions
  classes : List.Forall₂ (ReadsClass depth) (n.itemsAt "classes") p.classes

theorem vouches_varEntry (v : VarDecl × Nat) (key value : Yaml.Node) :
    Vouches s (varEntry v key value) fun v' ↦ v'.1.name = v.1.name := by
  unfold varEntry
  dsimp only
  split
  case h_1 =>
    split
    · exact .pure rfl
    · exact .reported
  case h_9 => exact (Vouches.reportKey _ _ _).reported_pure
  all_goals exact vouches_text.bind fun _ ↦ .pure fun _ ↦ rfl

theorem fairVar_of_varFault? {v : VarDecl} {places : Nat} (hname : isIdent v.name = true)
    (h : varFault? v places = none) :
    FairVar (if v.kind ≠ .score ∧ v.type.isEmpty then { v with type := "int" } else v) := by
  unfold varFault? at h
  dsimp only at h
  split_ifs at h with _ hscore hpath hplain
  have hname := identForm_of_isIdent hname
  simp only [Bool.and_eq_true, Bool.or_eq_true, Bool.not_eq_true', beq_iff_eq, beq_eq_false_iff_ne, ne_eq,
    String.isEmpty_iff, String.isEmpty_eq_false_iff, not_and, not_or, not_not] at hscore hpath hplain
  split
  · rename_i hdata
    exact ⟨hname, fun h ↦ absurd h hdata.1, fun h ↦ ⟨hpath h, (by decide : "int" ≠ ""), hplain h⟩⟩
  · rename_i hdata
    refine ⟨hname, hscore, fun h ↦ ⟨hpath h, fun htype ↦ hdata ⟨h, ?_⟩, hplain h⟩⟩
    exact String.isEmpty_iff.2 htype

theorem vouches_varDecl (key value : Yaml.Node) : Gives s (varDecl key value) FairVar := by
  unfold varDecl
  by_cases hname : isIdent key.text
  · rw [if_neg (not_not.2 hname)]
    dsimp only
    split
    · split
      · exact .some ⟨identForm_of_isIdent hname, fun _ ↦ ⟨rfl, rfl⟩, fun h ↦ absurd rfl h⟩
      · exact .reported
    · refine vouches_entries.bind fun es ↦ ?_
      refine (Vouches.foldlM (I := fun _ v ↦ v.1.name = key.text) rfl (fun _ e v ↦ ?_) es).bind fun v ↦ ?_
      · exact (vouches_varEntry v e.1 e.2).weaken fun v' h hv ↦ h.trans hv
      · split
        · exact .reported
        · rename_i hfault
          have hnone := Option.eq_none_iff_forall_ne_some.2 fun message ↦ hfault message
          exact .pure fun hv _ ↦ ⟨_, rfl, fairVar_of_varFault? (hv ▸ hname) hnone⟩
  · rw [if_pos hname]
    exact .reported

/-- What is listed under a key, once the key is among the entries. -/
theorem getD_listed_append {e : Yaml.Node × Yaml.Node} {key : String} (hnodup : ((es ++ [e]).map (·.1.text)).Nodup) :
    ((Yaml.Node.lookup key (es ++ [e])).map Yaml.Node.listed).getD [] =
      if e.1.text = key then e.2.listed else ((Yaml.Node.lookup key es).map Yaml.Node.listed).getD [] := by
  rw [Yaml.Node.lookup, List.find?_append, List.find?_singleton]
  by_cases hk : e.1.text = key
  · have hnone : es.find? (fun e ↦ e.1.text == key) = none := by
      rw [List.find?_eq_none]
      intro e' he' hek
      rw [List.map_append, List.nodup_append] at hnodup
      exact hnodup.2.2 _ (List.mem_map_of_mem he') _ List.mem_cons_self ((beq_iff_eq.1 hek).trans hk.symm)
    simp [hnone, hk]
  · simp [hk, Yaml.Node.lookup]

/-- A list that is made of what is listed under a key, by going through the entries of a mapping. -/
theorem vouches_listed {γ : Type} {step : β → Yaml.Node × Yaml.Node → Reading β} {list : β → List γ}
    {R : Yaml.Node → γ → Prop} {key : String}
    (hstep : ∀ b e, Vouches s (step b e) fun b' ↦ (e.1.text = key → List.Forall₂ R e.2.listed (list b')) ∧
      (e.1.text ≠ key → list b' = list b)) {b : β} (hb : list b = []) (es : List (Yaml.Node × Yaml.Node)) :
    Vouches s (es.foldlM step b) fun b' ↦ (es.map (·.1.text)).Nodup →
      List.Forall₂ R (((Yaml.Node.lookup key es).map Yaml.Node.listed).getD []) (list b') := by
  refine Vouches.foldlM (I := fun es b' ↦ (es.map (·.1.text)).Nodup →
      List.Forall₂ R (((Yaml.Node.lookup key es).map Yaml.Node.listed).getD []) (list b')) ?_ (fun es e b ↦ ?_) es
  · intro _
    rw [hb]
    exact .nil
  · refine (hstep b e).weaken fun b' hb' hes hnodup ↦ ?_
    rw [getD_listed_append hnodup]
    rw [List.map_append] at hnodup
    split
    · rename_i hk
      exact hb'.1 hk
    · rename_i hk
      rw [hb'.2 hk]
      exact hes hnodup.of_append_left

theorem vouches_functionEntry (f : FunctionDecl) (e : Yaml.Node × Yaml.Node) :
    Vouches s (functionEntry f e.1 e.2) fun f' ↦
      (e.1.text = "body" → List.Forall₂ (ReadsAs s.maxDepth.toNat) e.2.listed f'.body) ∧
      (e.1.text ≠ "body" → f'.body = f.body) := by
  unfold functionEntry
  split
  · rename_i hkey
    exact vouches_text.bind fun _ ↦ .pure fun _ ↦ ⟨by simp [hkey], fun _ ↦ rfl⟩
  · rename_i hkey
    exact vouches_text.bind fun _ ↦ .pure fun _ ↦ ⟨by simp [hkey], fun _ ↦ rfl⟩
  · rename_i hkey
    exact vouches_texts.bind fun _ ↦ .pure fun _ ↦ ⟨by simp [hkey], fun _ ↦ rfl⟩
  · rename_i hkey
    refine Vouches.read.bind fun r ↦ (vouches_block (vouches_nested _) _).bind fun body ↦ .pure ?_
    rintro hbody rfl
    exact ⟨fun _ ↦ hbody, fun h ↦ absurd hkey h⟩
  · exact (Vouches.reportKey _ _ _).reported_pure

theorem vouches_function : Gives s (function n) (ReadsFunction s.maxDepth.toNat n) := by
  unfold function
  refine vouches_entries.bind fun es ↦ (vouches_listed vouches_functionEntry rfl es).bind fun f ↦ ?_
  split
  · rename_i hmapping
    refine .pure fun _ hes ↦ ?_
    obtain ⟨⟨pos, tag, rfl⟩, -⟩ := hes
    exact absurd rfl hmapping
  · split
    · rename_i hname
      refine .pure fun hbody hes ↦ ⟨_, rfl, identForm_of_isIdent hname, ?_⟩
      rw [hes.itemsAt]
      exact hbody hes.2
    · exact .reported

theorem vouches_functions : Vouches s (do (← items what n).filterMapM function)
    (List.Forall₂ (ReadsFunction s.maxDepth.toNat) n.listed) := by
  refine vouches_items.bind fun ns ↦ (Vouches.filterMapM fun n _ ↦ vouches_function).weaken ?_
  rintro fs hfs rfl
  exact hfs

theorem vouches_member (members : Dict String) (key value : Yaml.Node) : Vouches s (member members key value) fun ms ↦
    (∀ m ∈ members, IdentForm m.1.toList) → ∀ m ∈ ms, IdentForm m.1.toList := by
  unfold member
  split
  · rename_i hkey
    refine vouches_text.bind fun type ↦ .pure fun _ hms m hm ↦ ?_
    rcases Dict.mem_insert hm with rfl | hm
    · exact identForm_of_isIdent hkey
    · exact hms m hm
  · exact .reported

theorem vouches_classEntry (c : ClassDecl) (e : Yaml.Node × Yaml.Node) :
    Vouches s (classEntry c e.1 e.2) fun c' ↦
      ((∀ m ∈ c.members, IdentForm m.1.toList) → ∀ m ∈ c'.members, IdentForm m.1.toList) ∧
      (e.1.text = "functions" → List.Forall₂ (ReadsFunction s.maxDepth.toNat) e.2.listed c'.functions) ∧
      (e.1.text ≠ "functions" → c'.functions = c.functions) := by
  unfold classEntry
  split
  · rename_i hkey
    exact vouches_text.bind fun _ ↦ .pure fun _ ↦ ⟨id, by simp [hkey], fun _ ↦ rfl⟩
  · rename_i hkey
    exact vouches_texts.bind fun _ ↦ .pure fun _ ↦ ⟨id, by simp [hkey], fun _ ↦ rfl⟩
  · rename_i hkey
    refine vouches_entries.bind fun es ↦ ?_
    refine (Vouches.foldlM (I := fun _ ms ↦ (∀ m ∈ c.members, IdentForm m.1.toList) → ∀ m ∈ ms, IdentForm m.1.toList)
      id (fun _ e ms ↦ ?_) es).bind fun ms ↦ .pure fun hms _ ↦ ⟨hms, by simp [hkey], fun _ ↦ rfl⟩
    exact (vouches_member ms e.1 e.2).weaken fun ms' h hms hc ↦ h (hms hc)
  · rename_i hkey
    rw [← bind_assoc]
    exact vouches_functions.bind fun fs ↦ .pure fun hfs ↦ ⟨id, fun _ ↦ hfs, fun h ↦ absurd hkey h⟩
  · exact (Vouches.reportKey _ _ _).reported_pure

theorem vouches_classDecl (n : Yaml.Node) :
    Gives s (classDecl n) (ReadsClass s.maxDepth.toNat n) := by
  unfold classDecl
  refine vouches_entries.bind fun es ↦ ?_
  have hfunctions := vouches_listed (fun c e ↦ (vouches_classEntry (s := s) c e).weaken fun _ h ↦ h.2)
    (b := { pos := n.pos, name := "" }) rfl es
  have hmembers := Vouches.foldlM (f := fun c (e : Yaml.Node × Yaml.Node) ↦ classEntry c e.1 e.2)
    (I := fun _ c ↦ ∀ m ∈ c.members, IdentForm m.1.toList) (b := { pos := n.pos, name := "" })
    (fun _ h ↦ nomatch h) (fun _ e c ↦ (vouches_classEntry (s := s) c e).weaken fun _ h ↦ h.1) es
  refine (hfunctions.and hmembers).bind fun c ↦ ?_
  split
  · rename_i hmapping
    refine .pure fun _ hes ↦ ?_
    obtain ⟨⟨pos, tag, rfl⟩, -⟩ := hes
    exact absurd rfl hmapping
  · split
    · rename_i hname
      refine .pure fun hc hes ↦ ⟨_, rfl, identForm_of_isIdent hname, hc.2, ?_⟩
      rw [hes.itemsAt]
      exact hc.1 hes.2
    · exact .reported

theorem vouches_classes : Vouches s (do (← items what n).filterMapM classDecl)
    (List.Forall₂ (ReadsClass s.maxDepth.toNat) n.listed) := by
  refine vouches_items.bind fun ns ↦ (Vouches.filterMapM fun n _ ↦ vouches_classDecl n).weaken ?_
  rintro cs hcs rfl
  exact hcs

theorem vouches_vars : Vouches s (do (← entries what n).filterMapM fun (k, v) ↦ varDecl k v) fun vs ↦ ∀ v ∈ vs, FairVar v := by
  refine vouches_entries.bind fun es ↦ ?_
  have hall : Vouches s (es.filterMapM fun (k, v) ↦ varDecl k v) (List.Forall₂ (fun _ v ↦ FairVar v) es) :=
    .filterMapM fun e _ ↦ vouches_varDecl e.1 e.2
  exact hall.weaken fun vs hvs _ ↦ forall_mem_of_forall₂ hvs fun _ _ hv ↦ hv

/-- What an entry of a program leaves of the vars, functions and classes, and what it makes of them. -/
theorem vouches_programEntry (p : Program) (e : Yaml.Node × Yaml.Node) :
    Vouches s (programEntry p e.1 e.2) fun p' ↦
      ((∀ v ∈ p.vars, FairVar v) → ∀ v ∈ p'.vars, FairVar v) ∧
      ((e.1.text = "functions" → List.Forall₂ (ReadsFunction s.maxDepth.toNat) e.2.listed p'.functions) ∧
        (e.1.text ≠ "functions" → p'.functions = p.functions)) ∧
      (e.1.text = "classes" → List.Forall₂ (ReadsClass s.maxDepth.toNat) e.2.listed p'.classes) ∧
      (e.1.text ≠ "classes" → p'.classes = p.classes) := by
  unfold programEntry
  split
  · rename_i hkey
    refine vouches_text.bind fun _ ↦ .pure fun _ ↦ ⟨id, ⟨?_, fun _ ↦ rfl⟩, ?_, fun _ ↦ rfl⟩ <;> simp [hkey]
  · rename_i hkey
    rw [← bind_assoc]
    refine vouches_vars.bind fun vs ↦ .pure fun hvs ↦ ⟨fun _ ↦ hvs, ⟨?_, fun _ ↦ rfl⟩, ?_, fun _ ↦ rfl⟩ <;>
      simp [hkey]
  · rename_i hkey
    rw [← bind_assoc]
    refine vouches_functions.bind fun fs ↦ .pure fun hfs ↦
      ⟨id, ⟨fun _ ↦ hfs, fun h ↦ absurd hkey h⟩, ?_, fun _ ↦ rfl⟩
    simp [hkey]
  · rename_i hkey
    rw [← bind_assoc]
    refine vouches_classes.bind fun cs ↦ .pure fun hcs ↦
      ⟨id, ⟨?_, fun _ ↦ rfl⟩, fun _ ↦ hcs, fun h ↦ absurd hkey h⟩
    simp [hkey]
  · exact (Vouches.reportKey _ _ _).reported_pure

theorem vouches_program (n : Yaml.Node) : Vouches s (program n) (ReadsProgram s.maxDepth.toNat n) := by
  unfold program
  refine vouches_entries.bind fun es ↦ ?_
  have hvars := Vouches.foldlM (f := fun p (e : Yaml.Node × Yaml.Node) ↦ programEntry p e.1 e.2)
    (I := fun _ p ↦ ∀ v ∈ p.vars, FairVar v) (b := { pos := n.pos, root := "" })
    (fun _ h ↦ nomatch h) (fun _ e p ↦ (vouches_programEntry (s := s) p e).weaken fun _ h ↦ h.1) es
  have hfunctions := vouches_listed (fun p e ↦ (vouches_programEntry (s := s) p e).weaken fun _ h ↦ h.2.1)
    (b := { pos := n.pos, root := "" }) rfl es
  have hclasses := vouches_listed (fun p e ↦ (vouches_programEntry (s := s) p e).weaken fun _ h ↦ h.2.2)
    (b := { pos := n.pos, root := "" }) rfl es
  refine (hvars.and (hfunctions.and hclasses)).bind fun p ↦ ?_
  split
  · exact .reported
  · refine .pure fun hp hes ↦ ⟨hp.1, ?_, ?_⟩
    · rw [hes.itemsAt]
      exact hp.2.1 hes.2
    · rw [hes.itemsAt]
      exact hp.2.2 hes.2

theorem reads_of_programOf {cancelled : Bool} {d : Except String (Option Yaml.Node)} {p : Program}
    (h : programOf s cancelled d = .ok p) : ∃ n, ReadsProgram s.maxDepth.toNat n p := by
  unfold programOf at h
  split at h
  · nomatch h
  · nomatch h
  · rename_i _ n
    obtain ⟨new, hnew, hp⟩ := vouches_program (s := s) n #[]
    split at h
    rename_i p' problems hrun
    rw [show program n s #[] = (p', problems) from hrun] at hnew hp
    split at h
    · nomatch h
    split at h
    · nomatch h
    · rename_i hnone
      cases h
      refine ⟨n, hp ?_⟩
      cases problems using Array.rec with
      | _ ps =>
        cases ps with
        | nil => exact (Array.append_eq_empty_iff.1 hnew.symm).2
        | cons q qs => cases qs <;> nomatch hnone

/-- If no problem is met in a document, its program is well-formed and nothing of the document was left out: names
are identifiers, scores and other variables have the parts they need and no others, statements have targets that are
variables and fair tests and are nested no deeper than is allowed, and a branch has an alternative just if its mapping
has one. -/
theorem accepted_reads_program {s : Settings} {n : Yaml.Node} {p : Program}
    (h : ((program n).run s).run #[] = (p, #[])) : ReadsProgram s.maxDepth.toNat n p := by
  obtain ⟨new, hnew, hp⟩ := vouches_program (s := s) n #[]
  rw [show program n s #[] = (p, #[]) from h] at hnew hp
  exact hp (Array.append_eq_empty_iff.1 hnew.symm).2

/-- A plain text on the first line of a document. -/
def plainNode (text : String) : Yaml.Node := .scalar ⟨1, 1⟩ "!!str" text .plain

def fieldsNode (fields : List (String × Yaml.Node)) : Yaml.Node :=
  .mapping ⟨1, 1⟩ "!!map" (fields.map fun (k, v) ↦ (plainNode k, v))

def listNode (items : List Yaml.Node) : Yaml.Node := .sequence ⟨1, 1⟩ "!!seq" items

/-- `while n matches 1..: if n < 5: add k to n, else: nothing`, in a document with a score `n` and a stored `k`. -/
def countingDocument : Yaml.Node :=
  fieldsNode [
    ("namespace", plainNode "demo"),
    ("vars", fieldsNode [
      ("n", plainNode "score"),
      ("k", fieldsNode [("storage", plainNode "demo:data"), ("path", plainNode "k")])]),
    ("functions", listNode [fieldsNode [
      ("name", plainNode "main"),
      ("body", listNode [fieldsNode [("while", fieldsNode [
        ("cond", plainNode "n matches 1.."),
        ("body", listNode [fieldsNode [("if", fieldsNode [
          ("cond", plainNode "n < 5"),
          ("then", listNode [fieldsNode [("add", fieldsNode [("var", plainNode "n"), ("value", plainNode "k")])]]),
          ("else", listNode [])])]])])]])]])]

def countingProgram : Program where
  pos := ⟨1, 1⟩
  root := "demo"
  vars := [
    { pos := ⟨1, 1⟩, name := "n", kind := .score },
    { pos := ⟨1, 1⟩, name := "k", kind := .storage, target := "demo:data", path := "k", type := "int" }]
  functions := [{ pos := ⟨1, 1⟩, name := "main", body := [
    .loop ⟨1, 1⟩ { pos := ⟨1, 1⟩, left := ⟨⟨1, 1⟩, .ident "n"⟩, op := "matches", range := "1.." } [
      .branch ⟨1, 1⟩
        { pos := ⟨1, 1⟩, left := ⟨⟨1, 1⟩, .ident "n"⟩, op := "<", right := some ⟨⟨1, 1⟩, .int 5⟩ }
        [.add ⟨1, 1⟩ ⟨⟨1, 1⟩, .ident "n"⟩ ⟨⟨1, 1⟩, .ident "k"⟩] (some [])]] }]

theorem accepted_reads_program_counting :
    ((program countingDocument).run { maxDepth := 2 }).run #[] = (countingProgram, #[]) ∧
      ReadsProgram 2 countingDocument countingProgram :=
  ⟨by rfl, accepted_reads_program (s := { maxDepth := 2 }) (by rfl)⟩

end Document

end CommandPack
