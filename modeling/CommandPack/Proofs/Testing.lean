import Mathlib
import CommandPack.Proofs.Hiding

/-!
Conditions of commands: each takes its own words, tells the same on machines that differ in scores
it does not read, and tells the same again when it is tested twice.
-/

namespace CommandPack.Machine

open Stateful

variable {site : Site} {actor : Actor} {o s : String} {u : Unit} {target : Target} {es : List Entity} {t : Tested}
  {r : Option Int32} {words : List String} {m m₁ : Machine}

/-- The words that name where data is. -/
inductive IsTarget : List String → Prop
  | storage (id : String) : IsTarget ["storage", id]
  | entity (s : String) : IsTarget ["entity", s]
  | block (x y z : String) : IsTarget ["block", x, y, z]

theorem IsTarget.dataTarget_append (h : IsTarget words) (site : Site) (actor : Actor)
    (rest : List String) : dataTarget site actor (words ++ rest) = dataTarget site actor words := by
  cases h <;> simp [dataTarget]

theorem IsTarget.used_eq (h : IsTarget words) (hm : dataTarget site actor words m = (.ok target, m₁)) :
    target.used = words.length := by
  cases h with
  | storage id =>
    simp [dataTarget] at hm
    simp [← hm.1]
  | entity s =>
    simp only [dataTarget, String.reduceEq, if_false, if_true, bind_eq_ok] at hm
    obtain ⟨es, m₂, -, hm⟩ := hm
    split at hm <;> simp at hm <;> simp [← hm.1]
  | block x y z =>
    simp only [dataTarget, String.reduceEq, if_false, if_true, bind_eq_ok] at hm
    obtain ⟨p, m₂, -, -, m₃, -, hm⟩ := hm
    simp at hm
    simp [← hm.1]

theorem has_insert_self {α : Type} (k : String) (a : α) (d : Dict α) :
    Dict.has k (Dict.insert k a d) = true := by
  simp [Dict.has]

theorem selectOrFault_eq_ok : selectOrFault site actor s m = (.ok es, m₁) ↔ m₁ = m ∧ select m actor s = .ok es := by
  simp only [selectOrFault, bind_apply, get_apply, andThen_ok]
  cases select m actor s with
  | error e => simp [fault]
  | ok es' => simp [eq_comm, and_comm]

theorem positionOrFault_eq_ok {x y z : String} {p : Position} :
    positionOrFault site actor x y z m = (.ok p, m₁) ↔
      m₁ = m ∧ readPosition actor.pos x y z = .ok p := by
  simp only [positionOrFault]
  cases readPosition actor.pos x y z with
  | error e => simp [orFault, fault]
  | ok p' => simp [orFault, eq_comm, and_comm]

theorem IsTarget.again (h : IsTarget words) (hm : dataTarget site actor words m = (.ok target, m₁)) :
    dataTarget site actor words m₁ = (.ok target, m₁) := by
  cases h with
  | storage id =>
    simp only [dataTarget, if_true, bind_apply, modify_apply, andThen_ok, pure_apply,
      outcome_eq_iff] at hm ⊢
    obtain ⟨htarget, rfl⟩ := hm
    refine ⟨htarget, ?_⟩
    by_cases hid : Dict.has id m.storage = true
    · simp [hid]
    · simp [hid, has_insert_self]
  | entity s =>
    simp only [dataTarget, String.reduceEq, if_false, if_true, bind_eq_ok, selectOrFault_eq_ok] at hm ⊢
    obtain ⟨es, m₂, ⟨rfl, hsel⟩, hm⟩ := hm
    have hm₁ : m₁ = m₂ := by
      split at hm <;> simp at hm <;> exact hm.2.symm
    subst hm₁
    exact ⟨es, m₁, ⟨rfl, hsel⟩, hm⟩
  | block x y z =>
    simp only [dataTarget, String.reduceEq, if_false, if_true, bind_eq_ok,
      positionOrFault_eq_ok] at hm ⊢
    obtain ⟨p, m₂, ⟨rfl, hp⟩, hm⟩ := hm
    refine ⟨p, m₁, ⟨rfl, hp⟩, ?_⟩
    simp only [modify_apply, outcome_eq_iff, pure_apply] at hm ⊢
    obtain ⟨-, m₃, ⟨-, hm₃⟩, htarget, rfl⟩ := hm
    refine ⟨⟨⟩, m₃, ⟨trivial, ?_⟩, htarget, rfl⟩
    by_cases hkey : Dict.has (blockKey p) m₂.blocks = true
    · simp [hkey] at hm₃
      simp [← hm₃, hkey]
    · simp [hkey] at hm₃
      simp [← hm₃, has_insert_self]

/-- The words of one condition. -/
inductive IsTest : List String → Prop
  | range (t o r : String) : IsTest ["score", t, o, "matches", r]
  | compare (t o op s o' : String) (h : op ≠ "matches") : IsTest ["score", t, o, op, s, o']
  | data (target : List String) (h : IsTarget target) (path : String) :
      IsTest ("data" :: (target ++ [path]))
  | selector (s : String) : IsTest ["entity", s]

theorem IsTest.ne_nil (h : IsTest words) : words ≠ [] := by
  cases h <;> simp

theorem test_range (site : Site) (actor : Actor) (t o r : String) (rest : List String) :
    test site actor ("score" :: t :: o :: "matches" :: r :: rest) = do
      useObjective site o
      let a ← singleScore site actor t o
      match Range.parse? r with
      | none => fault site (.invalidRange r)
      | some range => return ⟨5, a.any fun a ↦ range.holds a.toInt⟩ := by
  simp only [test, if_true, testScore]
  rfl

theorem test_compare (site : Site) (actor : Actor) {op : String} (h : op ≠ "matches")
    (t o s o' : String) (rest : List String) :
    test site actor ("score" :: t :: o :: op :: s :: o' :: rest) = do
      useObjective site o
      let a ← singleScore site actor t o
      useObjective site o'
      let b ← singleScore site actor s o'
      match a, b with
      | some a, some b =>
        match Comparison.parse? op with
        | none => fault site (.unknownComparison op)
        | some c => return ⟨6, c.holds a b⟩
      | _, _ => return ⟨6, false⟩ := by
  change testScore site actor (t :: o :: op :: s :: o' :: rest) = _
  exact bind_congr fun _ ↦ bind_congr fun _ ↦ if_neg h

theorem IsTarget.test_data {target : List String} (h : IsTarget target) (site : Site)
    (actor : Actor) (path : String) (rest : List String) :
    test site actor ("data" :: (target ++ path :: rest)) = do
      let place ← dataTarget site actor target
      match place.place with
      | none => return ⟨target.length + 2, false⟩
      | some place =>
        let steps ← pathOrFault site path
        return ⟨target.length + 2, (Tag.get? steps (.compound (place.load (← get)))).isSome⟩ := by
  have hwords : ∃ word arg args, target ++ path :: rest = word :: arg :: args := by
    cases h <;> exact ⟨_, _, _, rfl⟩
  have htest : test site actor ("data" :: (target ++ path :: rest)) =
      testData site actor (target ++ path :: rest) := by
    obtain ⟨word, arg, args, hw⟩ := hwords
    rw [hw]
    simp [test]
  rw [htest]
  funext m
  simp only [testData, h.dataTarget_append, bind_apply]
  rcases hm : dataTarget site actor target m with ⟨e | place, m₁⟩
  · rfl
  · obtain ⟨_ | place, used⟩ := place <;> obtain rfl : used = target.length := h.used_eq hm <;>
      simp only [andThen_ok, List.drop_left]

theorem test_selector (site : Site) (actor : Actor) (s : String) (rest : List String) :
    test site actor ("entity" :: s :: rest) = do
      return ⟨2, !(← selectOrFault site actor s).isEmpty⟩ := by
  simp [test]

theorem IsTest.test_append (h : IsTest words) (site : Site) (actor : Actor) (rest : List String) :
    test site actor (words ++ rest) = test site actor words := by
  cases h with
  | range t o r => exact (test_range ..).trans (test_range ..).symm
  | compare t o op s o' h => exact (test_compare site actor h ..).trans (test_compare site actor h ..).symm
  | data target h path =>
    rw [List.cons_append, List.append_assoc]
    exact (h.test_data ..).trans (h.test_data ..).symm
  | selector s => exact (test_selector ..).trans (test_selector ..).symm

theorem IsTest.used_eq (h : IsTest words) (hm : test site actor words m = (.ok t, m₁)) : t.used = words.length := by
  cases h with
  | range t o r =>
    simp only [test_range, bind_eq_ok] at hm
    obtain ⟨-, m₂, -, a, m₃, -, hm⟩ := hm
    cases hr : Range.parse? r with
    | none => simp [hr, fault] at hm
    | some range =>
      simp [hr] at hm
      simp [← hm.1]
  | compare t o op s o' h =>
    simp only [test_compare site actor h, bind_eq_ok] at hm
    obtain ⟨-, m₂, -, a, m₃, -, -, m₄, -, b, m₅, -, hm⟩ := hm
    rcases a with _ | a <;> rcases b with _ | b
    case some.some =>
      cases hop : Comparison.parse? op with
      | none => simp [hop, fault] at hm
      | some c =>
        simp [hop] at hm
        simp [← hm.1]
    all_goals
      simp at hm
      simp [← hm.1]
  | data target h path =>
    simp only [h.test_data, bind_eq_ok] at hm
    obtain ⟨place, m₂, -, hm⟩ := hm
    rcases hplace : place.place with _ | place
    · simp [hplace] at hm
      simp [← hm.1]
    · simp only [hplace, bind_eq_ok] at hm
      obtain ⟨steps, m₃, -, seen, m₄, -, hm⟩ := hm
      simp at hm
      simp [← hm.1]
  | selector s =>
    simp only [test_selector, bind_eq_ok] at hm
    obtain ⟨es, m₂, -, hm⟩ := hm
    simp at hm
    simp [← hm.1]

def scoresRead : List String → List (String × String)
  | ["score", t, o, _, _] => [(t, o)]
  | ["score", t, o, _, s, o'] => [(t, o), (s, o')]
  | _ => []

/-- Does a condition leave hidden scores alone? -/
def Overlooks (h : Hidden) (words : List String) : Prop :=
  ∀ p o, (p, o) ∈ scoresRead words → p ∈ h.players → o ≠ h.objective

theorem IsTest.alike (ht : IsTest words) {h : Hidden} (hw : Overlooks h words) (site site' : Site)
    (actor : Actor) : Alike (SameBut h) (test site actor words) (test site' actor words) := by
  cases ht with
  | range t o r =>
    rw [test_range, test_range]
    refine alike_bind (alike_useObjective h site site' o) fun _ ↦ ?_
    refine alike_bind (alike_singleScore h site site' actor (hw t o (by simp [scoresRead]))) fun a ↦ ?_
    cases Range.parse? r
    · exact alike_fault site site' _ _
    · exact alike_pure
  | compare t o op s o' hop =>
    rw [test_compare site actor hop, test_compare site' actor hop]
    refine alike_bind (alike_useObjective h site site' o) fun _ ↦ ?_
    refine alike_bind (alike_singleScore h site site' actor (hw t o (by simp [scoresRead]))) fun a ↦ ?_
    refine alike_bind (alike_useObjective h site site' o') fun _ ↦ ?_
    refine alike_bind (alike_singleScore h site site' actor (hw s o' (by simp [scoresRead]))) fun b ↦ ?_
    rcases a with _ | a <;> rcases b with _ | b
    case some.some =>
      cases Comparison.parse? op
      · exact alike_fault site site' _ _
      · exact alike_pure
    all_goals exact alike_pure
  | data target htarget path =>
    rw [htarget.test_data, htarget.test_data]
    refine alike_bind (alike_dataTarget h site site' actor target) fun place ↦ ?_
    rcases place.place with _ | place
    · exact alike_pure
    · refine alike_bind (alike_pathOrFault site site' path) fun steps ↦ ?_
      refine alike_get_bind fun m m' hm ↦ ⟨?_, hm⟩
      have hload : place.load m = place.load m' := by
        cases place <;> simp [Place.load, hm.storage, hm.blocks, entity?, hm.entities]
      rw [hload]
  | selector s =>
    rw [test_selector, test_selector]
    exact alike_bind (alike_selectOrFault h site site' actor s) fun _ ↦ alike_pure

theorem useObjective_eq_ok :
    useObjective site o m = (.ok u, m₁) ↔
      (o ∈ m.objectives ∧ m₁ = m) ∨
        (o ∉ m.objectives ∧ m.strict = false ∧ m₁ = { m with objectives := m.objectives ++ [o] }) := by
  simp only [useObjective, bind_apply, get_apply, andThen_ok, List.contains_iff_mem]
  by_cases ho : o ∈ m.objectives
  · simp only [ho, if_true, pure_apply, outcome_eq_iff, true_and, not_true, false_and, or_false]
    exact eq_comm
  · cases hs : m.strict
    · simp only [ho, if_false, Bool.false_eq_true, set_apply, outcome_eq_iff, true_and, false_and,
        not_false_eq_true, false_or]
      exact eq_comm
    · simp [ho, fault]

theorem mem_of_useObjective (h : useObjective site o m = (.ok u, m₁)) : o ∈ m₁.objectives := by
  rcases useObjective_eq_ok.1 h with ⟨ho, rfl⟩ | ⟨-, -, rfl⟩
  · exact ho
  · simp

theorem useObjective_of_mem (site : Site) (h : o ∈ m.objectives) : useObjective site o m = (.ok (), m) :=
  useObjective_eq_ok.2 (.inl ⟨h, rfl⟩)

/-- Reading a score leaves the machine as it is, and only looks at scores and entities. -/
theorem singleScore_eq_ok :
    singleScore site actor s o m = (.ok r, m₁) ↔
      m₁ = m ∧ ∃ hs, holders m actor s = .ok hs ∧
        r = match hs with
          | [h] => score? m h o
          | _ => none := by
  simp only [singleScore, holdersOrFault, bind_apply, get_apply, andThen_ok]
  cases holders m actor s with
  | error e => simp [fault]
  | ok hs =>
    simp only [pure_apply, andThen_ok, Except.ok.injEq, exists_eq_left']
    rcases hs with _ | ⟨h, _ | ⟨h', hs⟩⟩ <;> simp [eq_comm, and_comm]

theorem singleScore_of_objectives (objectives : List String) (h : singleScore site actor s o m = (.ok r, m₁)) :
    singleScore site actor s o { m with objectives } = (.ok r, { m with objectives }) := by
  obtain ⟨-, hs, hholders, hr⟩ := singleScore_eq_ok.1 h
  refine singleScore_eq_ok.2 ⟨rfl, hs, ?_, hr⟩
  rw [← hholders]
  exact holders_congr actor rfl s

theorem pathOrFault_eq_ok {steps : List Tag.Step} :
    pathOrFault site s m = (.ok steps, m₁) ↔ m₁ = m ∧ Tag.readPath s = .ok steps := by
  simp only [pathOrFault]
  cases Tag.readPath s with
  | error e => simp [fault]
  | ok steps' => simp [eq_comm, and_comm]

theorem useObjective_objectives (h : useObjective site o m = (.ok u, m₁)) :
    m.objectives <+: m₁.objectives ∧ m₁ = { m with objectives := m₁.objectives } := by
  rcases useObjective_eq_ok.1 h with ⟨-, rfl⟩ | ⟨-, -, rfl⟩
  · exact ⟨List.prefix_rfl, rfl⟩
  · exact ⟨List.prefix_append _ _, rfl⟩

/-- A condition that was tested tells the same when it is tested again, and changes nothing. -/
theorem IsTest.again (ht : IsTest words) (hm : test site actor words m = (.ok t, m₁)) :
    test site actor words m₁ = (.ok t, m₁) := by
  cases ht with
  | range t o r =>
    simp only [test_range, bind_eq_ok] at hm ⊢
    obtain ⟨u, m₂, hobjective, a, m₃, hscore, hm⟩ := hm
    obtain ⟨rfl, -⟩ := singleScore_eq_ok.1 hscore
    have hm₁ : m₁ = m₃ := by
      cases hr : Range.parse? r with
      | none => simp [hr, fault] at hm
      | some range => simpa [hr] using (congrArg Prod.snd hm).symm
    subst hm₁
    exact ⟨(), m₁, useObjective_of_mem site (mem_of_useObjective hobjective), a, m₁, hscore, hm⟩
  | compare t o op s o' hop =>
    simp only [test_compare site actor hop, bind_eq_ok] at hm ⊢
    obtain ⟨u, m₂, hobjective, a, m₃, hscore, u', m₄, hobjective', b, m₅, hscore', hm⟩ := hm
    obtain ⟨rfl, -⟩ := singleScore_eq_ok.1 hscore
    obtain ⟨rfl, -⟩ := singleScore_eq_ok.1 hscore'
    obtain ⟨hpre, hm₅⟩ := useObjective_objectives hobjective'
    have hm₁ : m₁ = m₅ := by
      rcases a with _ | a <;> rcases b with _ | b
      case some.some =>
        cases hr : Comparison.parse? op with
        | none => simp [hr, fault] at hm
        | some c => simpa [hr] using (congrArg Prod.snd hm).symm
      all_goals simpa using (congrArg Prod.snd hm).symm
    subst hm₁
    have ho : o ∈ m₁.objectives := hpre.subset (mem_of_useObjective hobjective)
    have hagain := singleScore_of_objectives m₁.objectives hscore
    rw [← hm₅] at hagain
    exact ⟨(), m₁, useObjective_of_mem site ho, a, m₁, hagain, (), m₁,
      useObjective_of_mem site (mem_of_useObjective hobjective'), b, m₁, hscore', hm⟩
  | data target htarget path =>
    simp only [htarget.test_data, bind_eq_ok] at hm ⊢
    obtain ⟨place, m₂, htgt, hm⟩ := hm
    have hm₁ : m₁ = m₂ := by
      rcases hplace : place.place with _ | place
      · simpa [hplace] using (congrArg Prod.snd hm).symm
      · simp only [hplace, bind_eq_ok, pathOrFault_eq_ok, get_apply, outcome_eq_iff, pure_apply] at hm
        obtain ⟨steps, m₃, ⟨rfl, -⟩, seen, m₄, ⟨-, rfl⟩, -, rfl⟩ := hm
        rfl
    subst hm₁
    exact ⟨place, m₁, htarget.again htgt, hm⟩
  | selector s =>
    simp only [test_selector, bind_eq_ok, selectOrFault_eq_ok] at hm ⊢
    obtain ⟨es, m₂, ⟨rfl, hsel⟩, hm⟩ := hm
    have hm₁ : m₁ = m₂ := by simpa using (congrArg Prod.snd hm).symm
    subst hm₁
    exact ⟨es, m₁, ⟨rfl, hsel⟩, hm⟩

section Retest

variable {site site' : Site} {actor : Actor} {m' : Machine} {s o : String}

theorem select_again (hm : select m actor s = .ok es) (m' : Machine) : ∃ es', select m' actor s = .ok es' := by
  cases hs : Selector.parse s with
  | error e => simp [select, hs, bind, Except.bind] at hm
  | ok sel => exact ⟨sel.choose m' actor, by simp [select, hs, bind, Except.bind, pure, Except.pure]⟩

theorem selectOrFault_again (hm : selectOrFault site actor s m = (.ok es, m₁)) (site' : Site) (m' : Machine) :
    ∃ es', selectOrFault site' actor s m' = (.ok es', m') := by
  obtain ⟨es', hes'⟩ := select_again (selectOrFault_eq_ok.1 hm).2 m'
  exact ⟨es', selectOrFault_eq_ok.2 ⟨rfl, hes'⟩⟩

theorem singleScore_again (hm : singleScore site actor s o m = (.ok r, m₁)) (site' : Site) (m' : Machine) :
    ∃ r', singleScore site' actor s o m' = (.ok r', m') := by
  obtain ⟨-, hs, hholders, -⟩ := singleScore_eq_ok.1 hm
  have hagain : ∃ hs', holders m' actor s = .ok hs' := by
    by_cases hsel : isSelector s = true
    · rw [holders, if_pos hsel] at hholders
      cases hes : select m actor s with
      | error e => simp [hes, Except.map] at hholders
      | ok es =>
        obtain ⟨es', hes'⟩ := select_again hes m'
        exact ⟨_, by rw [holders, if_pos hsel, hes', Except.map]⟩
    · exact ⟨_, by rw [holders, if_neg hsel]⟩
  obtain ⟨hs', hholders'⟩ := hagain
  exact ⟨_, singleScore_eq_ok.2 ⟨rfl, hs', hholders', rfl⟩⟩

/-- An objective may be used where it is there, and everywhere if machines are not strict. -/
def Usable (o : String) (m : Machine) : Prop := m.strict = false ∨ o ∈ m.objectives

theorem Usable.use (ho : Usable o m) (site : Site) : ∃ m₁, useObjective site o m = (.ok (), m₁) := by
  by_cases hmem : o ∈ m.objectives
  · exact ⟨m, useObjective_of_mem site hmem⟩
  · exact ⟨_, useObjective_eq_ok.2 (.inr ⟨hmem, ho.resolve_right hmem, rfl⟩)⟩

theorem usable_of_use (hm : useObjective site o m = (.ok u, m₁)) : Usable o m := by
  rcases useObjective_eq_ok.1 hm with ⟨ho, -⟩ | ⟨-, hs, -⟩
  · exact .inr ho
  · exact .inl hs

theorem Usable.after {o' : String} (ho : Usable o m) (hm : useObjective site o' m = (.ok u, m₁)) : Usable o m₁ := by
  obtain ⟨hpre, hm₁⟩ := useObjective_objectives hm
  refine ho.imp (fun hs ↦ ?_) fun hmem ↦ hpre.subset hmem
  rw [hm₁]
  exact hs

theorem IsTarget.retarget (h : IsTarget words) (hm : dataTarget site actor words m = (.ok target, m₁)) (site' : Site)
    (m' : Machine) : ∃ target' m₂, dataTarget site' actor words m' = (.ok target', m₂) := by
  cases h with
  | storage id => exact ⟨_, _, rfl⟩
  | entity s =>
    simp only [dataTarget, String.reduceEq, if_false, if_true, bind_eq_ok] at hm ⊢
    obtain ⟨es, m₂, hsel, -⟩ := hm
    obtain ⟨es', hes'⟩ := selectOrFault_again hsel site' m'
    rcases es' with _ | ⟨e, _ | ⟨e', es'⟩⟩ <;> exact ⟨_, _, _, _, hes', rfl⟩
  | block x y z =>
    simp only [dataTarget, String.reduceEq, if_false, if_true, bind_eq_ok,
      positionOrFault_eq_ok] at hm ⊢
    obtain ⟨p, m₂, ⟨-, hp⟩, -⟩ := hm
    exact ⟨_, _, p, m', ⟨rfl, hp⟩, ⟨⟩, _, rfl, rfl⟩

/-- A condition that held can be tested on any machine on which its objectives may be used. -/
theorem IsTest.retest (ht : IsTest words) (hm : test site actor words m = (.ok t, m₁)) (hholds : t.holds = true)
    (ho : ∀ o ∈ m₁.objectives, Usable o m') (site' : Site) : ∃ t' m₂, test site' actor words m' = (.ok t', m₂) := by
  cases ht with
  | range t o r =>
    simp only [test_range, bind_eq_ok] at hm ⊢
    obtain ⟨u, m₂, hobjective, a, m₃, hscore, hm⟩ := hm
    obtain ⟨rfl, -⟩ := singleScore_eq_ok.1 hscore
    cases hr : Range.parse? r with
    | none => simp [hr, fault] at hm
    | some range =>
      obtain rfl : m₃ = m₁ := by simpa [hr] using congrArg Prod.snd hm
      obtain ⟨m₂, hused⟩ := (ho o (mem_of_useObjective hobjective)).use site'
      obtain ⟨a', hscore'⟩ := singleScore_again hscore site' m₂
      exact ⟨_, _, (), m₂, hused, a', m₂, hscore', rfl⟩
  | compare t o op s o' hop =>
    simp only [test_compare site actor hop, test_compare site' actor hop, bind_eq_ok] at hm ⊢
    obtain ⟨u, m₂, hobjective, a, m₃, hscore, u', m₄, hobjective', b, m₅, hscore', hm⟩ := hm
    obtain ⟨rfl, -⟩ := singleScore_eq_ok.1 hscore
    obtain ⟨rfl, -⟩ := singleScore_eq_ok.1 hscore'
    -- the condition held, so both scores were there and the operator could be read
    obtain ⟨cmp, hcmp, rfl⟩ : ∃ cmp, Comparison.parse? op = some cmp ∧ m₅ = m₁ := by
      rcases a with _ | a <;> rcases b with _ | b
      case some.some =>
        cases hr : Comparison.parse? op with
        | none => simp [hr, fault] at hm
        | some cmp => exact ⟨cmp, rfl, by simpa [hr] using congrArg Prod.snd hm⟩
      all_goals
        simp only [pure_apply, outcome_eq_iff, Except.ok.injEq] at hm
        simp [← hm.1] at hholds
    have hmem : o ∈ m₅.objectives :=
      (useObjective_objectives hobjective').1.subset (mem_of_useObjective hobjective)
    obtain ⟨m₂, hused⟩ := (ho o hmem).use site'
    obtain ⟨m₄, hused'⟩ := ((ho o' (mem_of_useObjective hobjective')).after hused).use site'
    obtain ⟨a', ha⟩ := singleScore_again hscore site' m₂
    obtain ⟨b', hb⟩ := singleScore_again hscore' site' m₄
    rcases a' with _ | a' <;> rcases b' with _ | b'
    case some.some =>
      exact ⟨_, m₄, (), m₂, hused, some a', m₂, ha, (), m₄, hused', some b', m₄, hb, by rw [hcmp]; rfl⟩
    all_goals exact ⟨_, m₄, (), m₂, hused, _, m₂, ha, (), m₄, hused', _, m₄, hb, rfl⟩
  | data target htarget path =>
    simp only [htarget.test_data, bind_eq_ok] at hm ⊢
    obtain ⟨place, m₂, htgt, hm⟩ := hm
    obtain ⟨place', m₃, htgt'⟩ := htarget.retarget htgt site' m'
    -- the condition held, so there was a place and the path could be read
    obtain ⟨steps, hsteps⟩ : ∃ steps, Tag.readPath path = .ok steps := by
      rcases hplace : place.place with _ | p
      · simp only [hplace, pure_apply, outcome_eq_iff, Except.ok.injEq] at hm
        simp [← hm.1] at hholds
      · simp only [hplace, bind_eq_ok, pathOrFault_eq_ok] at hm
        obtain ⟨steps, m₃, ⟨-, hsteps⟩, -⟩ := hm
        exact ⟨steps, hsteps⟩
    rcases hplace : place'.place with _ | p
    · exact ⟨_, _, place', m₃, htgt', by rw [hplace]; rfl⟩
    · have hpath : pathOrFault site' path m₃ = (.ok steps, m₃) := pathOrFault_eq_ok.2 ⟨rfl, hsteps⟩
      exact ⟨_, _, place', m₃, htgt', by rw [hplace]; exact bind_eq_ok.2 ⟨steps, m₃, hpath, rfl⟩⟩
  | selector s =>
    simp only [test_selector, bind_eq_ok] at hm ⊢
    obtain ⟨es, m₂, hsel, -⟩ := hm
    obtain ⟨es', hes'⟩ := selectOrFault_again hsel site' m'
    exact ⟨_, _, es', m', hes', rfl⟩

end Retest

theorem test_scores (site : Site) (actor : Actor) (words : List String) (m : Machine) :
    (test site actor words m).2.scores = m.scores := by
  let R (m m' : Machine) : Prop := m'.scores = m.scores
  have : IsPreorder Machine R := { refl := fun _ ↦ rfl, trans := fun _ _ _ h h' ↦ h'.trans h }
  exact keeps_test (R := R) site actor (fun _ _ ↦ rfl) ⟨fun _ _ _ ↦ rfl, fun _ _ _ ↦ rfl⟩ words m

end CommandPack.Machine
