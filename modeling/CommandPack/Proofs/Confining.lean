import Mathlib
import CommandPack.Proofs.Keeping

/-!
Commands are confined to the world of a machine. A command that calls no function neither reads nor changes
what controls a run (limits, counters, observer), fails only of causes of its own, and keeps every preorder that
allows the kind of change it makes. One lemma per command says all three, so it serves all invariants; limits,
observers and missing functions are met by calls alone.
-/

namespace CommandPack.Machine

open Stateful

variable {ε α β γ : Type}

/-- The world of `w` in a run that is controlled as that of `c`. -/
def under (c w : Machine) : Machine :=
  { w with
    maxDepth := c.maxDepth, checkInterval := c.checkInterval, observer := c.observer,
    maxCommands := c.maxCommands, running := c.running, cancelled := c.cancelled, count := c.count,
    log := c.log }

/-- A cause that lies in the words of a command or in the world it finds, and not in a call. -/
def Cause.isOwn : Cause → Bool
  | budget _ | cancelled | halted | unknownFunction _ | tooDeep .. => false
  | _ => true

def Blames (E : Stop → Prop) (site : Site) : Prop :=
  ∀ cause : Cause, cause.isOwn = true → E (.fault ⟨cause, site.location, site.frames⟩)

theorem blames_any (site : Site) : Blames (fun _ ↦ True) site := fun _ _ ↦ trivial

/-- An action that works on the world alone, whoever controls the run, and whose errors have a property. Where
there are the objectives `os`, it leads to a related machine that has them too. -/
structure Acts (E : ε → Prop) (os : List String) (R : Machine → Machine → Prop) (a : ExceptT ε (StateM Machine) α) :
    Prop where
  under (c w : Machine) : a (under c w) = ((a w).1, under c (a w).2)
  error {w : Machine} {e : ε} (h : (a w).1 = .error e) : E e
  keeps {m : Machine} (h : os ⊆ m.objectives) : R m (a m).2 ∧ os ⊆ (a m).2.objectives

/-- An action that works on the world alone, whatever it does there. -/
abbrev Plain (E : ε → Prop) (a : ExceptT ε (StateM Machine) α) : Prop := Acts E [] (fun _ _ ↦ True) a

instance : IsPreorder Machine fun _ _ ↦ True where
  refl _ := trivial
  trans _ _ _ _ _ := trivial

theorem allowsAll_true : AllowsAll fun _ _ ↦ True :=
  ⟨.of_all fun _ _ _ _ ↦ trivial, fun _ _ _ ↦ trivial, .of_all fun _ _ _ ↦ trivial, fun _ _ ↦ trivial, fun _ _ _ ↦ trivial⟩

variable {R : Machine → Machine → Prop} {os : List String}

section Combinators

variable {g : Machine → Machine} {E : ε → Prop} {x : ExceptT ε (StateM Machine) α}
  {f : α → ExceptT ε (StateM Machine) β}

theorem Acts.all (h : Acts E [] R x) : Keeps R x := fun _ ↦ (h.keeps (List.nil_subset _)).1

theorem Acts.plain (h : Acts E os R x) : Plain E x := ⟨h.under, h.error, fun _ ↦ ⟨trivial, List.nil_subset _⟩⟩

theorem acts_change (hg : ∀ c w, g (under c w) = under c (g w)) (hR : ∀ m, R m (g m)) :
    Acts E [] R (modify g : ExceptT ε (StateM Machine) PUnit) :=
  ⟨fun c w ↦ congrArg (Prod.mk _) (hg c w), nofun, fun _ ↦ ⟨hR _, List.nil_subset _⟩⟩

theorem acts_get_set {r : Machine → α} (hg : ∀ c w, g (under c w) = under c (g w)) (hr : ∀ c w, r (under c w) = r w)
    (hR : ∀ m, os ⊆ m.objectives → R m (g m) ∧ os ⊆ (g m).objectives) :
    Acts E os R (do
      let m ← get
      set (g m)
      return r m : ExceptT ε (StateM Machine) α) := by
  refine ⟨fun c w ↦ ?_, nofun, hR _⟩
  change (Except.ok (r (under c w)), g (under c w)) = (Except.ok (r w), under c (g w))
  rw [hr, hg]

theorem acts_get_view {v : Machine → γ} {f : γ → Machine → ExceptT ε (StateM Machine) β}
    (hv : ∀ c w, v (under c w) = v w) (hf : ∀ a, Acts E os R (get >>= f a)) :
    Acts E os R (get >>= fun m ↦ f (v m) m) := by
  refine ⟨fun c w ↦ ?_, fun {w _} ↦ (hf (v w)).error, fun {m} ↦ (hf (v m)).keeps⟩
  change f (v (under c w)) (under c w) (under c w) = _
  rw [hv]
  exact (hf (v w)).under c w

theorem acts_get_ite {p : Machine → Prop} [DecidablePred p] {f g : Machine → ExceptT ε (StateM Machine) β}
    (hp : ∀ c w, p (under c w) ↔ p w) (hf : Acts E os R (get >>= f)) (hg : Acts E os R (get >>= g)) :
    Acts E os R (get >>= fun m ↦ if p m then f m else g m) := by
  have hacts : Acts E os R (get >>= fun m ↦ if decide (p m) = true then f m else g m) := by
    refine acts_get_view (v := fun m ↦ decide (p m)) (f := fun b m ↦ if b = true then f m else g m)
      (fun c w ↦ decide_eq_decide.2 (hp c w)) fun b ↦ ?_
    cases b
    · exact hg
    · exact hf
  simpa only [decide_eq_true_eq] using hacts

theorem acts_get_bind {f : Machine → ExceptT ε (StateM Machine) β} (hf : ∀ w, Acts E os R (f w))
    (hworld : ∀ c w, f (under c w) = f w) : Acts E os R (get >>= f) := by
  refine ⟨fun c w ↦ ?_, fun {w _} ↦ (hf w).error, fun {m} ↦ (hf m).keeps⟩
  rw [bind_apply, bind_apply, get_apply, get_apply, andThen_ok, andThen_ok, hworld]
  exact (hf w).under c w

variable [IsPreorder Machine R]

theorem acts_pure {a : α} : Acts E os R (pure a : ExceptT ε (StateM Machine) α) :=
  ⟨fun _ _ ↦ rfl, nofun, fun h ↦ ⟨refl_of R _, h⟩⟩

theorem acts_throw {e : ε} (h : E e) : Acts E os R (throw e : ExceptT ε (StateM Machine) α) := by
  refine ⟨fun _ _ ↦ rfl, ?_, fun h ↦ ⟨refl_of R _, h⟩⟩
  rintro _ _ ⟨⟩
  exact h

theorem acts_bind (hx : Acts E os R x) (hf : ∀ a, Acts E os R (f a)) : Acts E os R (x >>= f) := by
  refine ⟨fun c w ↦ ?_, fun {w e} he ↦ ?_, fun {m} hm ↦ ?_⟩
  · rw [bind_apply, bind_apply, hx.under c w]
    rcases x w with ⟨e | a, w₁⟩
    · rfl
    · exact (hf a).under c w₁
  · rw [bind_apply] at he
    rcases hw : x w with ⟨e' | a, w₁⟩
    · rw [hw] at he
      cases he
      exact hx.error (congrArg Prod.fst hw)
    · rw [hw] at he
      exact (hf a).error he
  · obtain ⟨hrel, hos⟩ := hx.keeps hm
    rw [bind_apply]
    rcases hw : x m with ⟨e | a, m₁⟩ <;> rw [hw] at hrel hos
    · exact ⟨hrel, hos⟩
    · exact ((hf a).keeps hos).imp_left (trans_of R hrel)

theorem acts_map (g : α → β) (hx : Acts E os R x) : Acts E os R (g <$> x) := by
  rw [map_eq_pure_bind]
  exact acts_bind hx fun _ ↦ acts_pure

theorem acts_forIn (l : List γ) (b : β) {f : γ → β → ExceptT ε (StateM Machine) (ForInStep β)}
    (h : ∀ c b, Acts E os R (f c b)) : Acts E os R (forIn l b f) := by
  induction l generalizing b with
  | nil => exact acts_pure
  | cons c l ih =>
    rw [List.forIn_cons]
    refine acts_bind (h c b) fun r ↦ ?_
    cases r with
    | done b => exact acts_pure
    | yield b => exact ih b

theorem acts_change_pure (hg : ∀ c w, g (under c w) = under c (g w)) (hR : ∀ m, R m (g m)) (a : α) :
    Acts E [] R (modify g >>= fun _ ↦ pure a : ExceptT ε (StateM Machine) α) :=
  acts_bind (acts_change hg hR) fun _ ↦ acts_pure

end Combinators

section Commands

variable {cause : Cause} {objective : String} {words : List String} [IsPreorder Machine R] {E : Stop → Prop}
  {site : Site} (hE : Blames E site) (actor : Actor)

include hE

theorem acts_fault (h : cause.isOwn = true) : Acts E os R (fault site cause : Action α) :=
  acts_throw (hE cause h)

theorem acts_check {c : Prop} [Decidable c] (h : cause.isOwn = true) {x : Action β} (hx : Acts E os R x) :
    Acts E os R (if c then (fault site cause : Action PUnit) >>= fun _ ↦ x else x) := by
  split
  · exact acts_bind (acts_fault hE h) fun _ ↦ hx
  · exact hx

theorem acts_orFault {x : Except Cause α} (h : ∀ cause, x = .error cause → cause.isOwn = true) :
    Acts E os R (orFault site x) := by
  cases x with
  | ok a => exact acts_pure
  | error cause => exact acts_fault hE (h cause rfl)

omit hE [IsPreorder Machine R] in
theorem isOwn_of_readCoordinate {base : Float} {s : String} (h : readCoordinate base s = .error cause) :
    cause.isOwn = true := by
  unfold readCoordinate at h
  split at h
  · cases h
    rfl
  · split at h
    · cases h
    · split at h <;> cases h
      rfl
  · split at h
    · cases h
    · split at h <;> cases h
      rfl

omit hE [IsPreorder Machine R] in
theorem isOwn_of_readPosition {base : Position} {x y z : String} (h : readPosition base x y z = .error cause) :
    cause.isOwn = true := by
  simp only [readPosition, bind, Except.bind] at h
  split at h
  · cases h
    exact isOwn_of_readCoordinate ‹_›
  split at h
  · cases h
    exact isOwn_of_readCoordinate ‹_›
  split at h
  · cases h
    exact isOwn_of_readCoordinate ‹_›
  · cases h

theorem acts_positionOrFault (x y z : String) : Acts E os R (positionOrFault site actor x y z) :=
  acts_orFault hE fun _ ↦ isOwn_of_readPosition

theorem acts_selectOrFault (s : String) : Acts E os R (selectOrFault site actor s) := by
  refine acts_get_bind (fun w ↦ ?_) fun _ _ ↦ rfl
  split
  · exact acts_pure
  · exact acts_fault hE rfl

theorem acts_holdersOrFault (s : String) : Acts E os R (holdersOrFault site actor s) := by
  refine acts_get_bind (fun w ↦ ?_) fun _ _ ↦ rfl
  split
  · exact acts_pure
  · exact acts_fault hE rfl

theorem acts_pathOrFault (s : String) : Acts E os R (pathOrFault site s) := by
  unfold pathOrFault
  split
  · exact acts_pure
  · exact acts_fault hE rfl

theorem acts_scaleOrFault (s : String) : Acts E os R (scaleOrFault site s) := by
  unfold scaleOrFault
  split
  · exact acts_pure
  · exact acts_fault hE rfl

theorem acts_tagOrFault : Acts E os R (tagOrFault site words) := by
  unfold tagOrFault
  dsimp only
  split
  · exact acts_pure
  · exact acts_fault hE rfl

theorem acts_singleScore (s objective : String) : Acts E os R (singleScore site actor s objective) := by
  refine acts_bind (acts_holdersOrFault hE actor s) fun hs ↦ ?_
  split
  · rename_i h
    refine acts_get_bind (fun _ ↦ acts_pure) fun c w ↦ ?_
    cases h <;> rfl
  · exact acts_pure

section Tests

variable (hobjective : AllowsNewObjective R) (hdata : AllowsNewData R)
include hobjective

theorem acts_useObjective (name : String) : Acts E os R (useObjective site name) := by
  refine acts_get_ite (fun _ _ ↦ Iff.rfl) (acts_get_bind (fun _ ↦ acts_pure) fun _ _ ↦ rfl) ?_
  refine acts_get_ite (fun _ _ ↦ Iff.rfl) (acts_get_bind (fun _ ↦ acts_fault hE rfl) fun _ _ ↦ rfl) ?_
  refine acts_get_set (fun _ _ ↦ rfl) (fun _ _ ↦ rfl) fun m hm ↦ ?_
  exact ⟨hobjective m name, fun o ho ↦ List.mem_append_left _ (hm ho)⟩

theorem acts_use {name : String} {f : Unit → Action β} (hf : Acts E (name :: os) R (f ())) :
    Acts E os R (useObjective site name >>= f) := by
  have hplain : Plain E (useObjective site name >>= f) :=
    acts_bind (acts_useObjective hE (fun _ _ ↦ trivial) name) fun _ ↦ hf.plain
  refine ⟨hplain.under, hplain.error, fun {m} hm ↦ ?_⟩
  have hused : (useObjective site name m = (.ok (), m) ∧ name ∈ m.objectives) ∨
      (∃ s, useObjective site name m = (.error s, m)) ∨
      useObjective site name m = (.ok (), { m with objectives := m.objectives ++ [name] }) := by
    simp only [useObjective, bind_apply, get_apply, andThen_ok]
    split
    · rename_i hname
      exact .inl ⟨rfl, List.contains_iff_mem.1 hname⟩
    · split
      · exact .inr (.inl ⟨_, rfl⟩)
      · exact .inr (.inr rfl)
  rcases hused with ⟨h, hname⟩ | ⟨s, h⟩ | h <;> rw [bind_apply, h]
  · obtain ⟨hrel, hos⟩ := hf.keeps (List.cons_subset.2 ⟨hname, hm⟩)
    exact ⟨hrel, fun o ho ↦ hos (List.mem_cons_of_mem _ ho)⟩
  · exact ⟨refl_of R m, hm⟩
  · obtain ⟨hrel, hos⟩ := hf.keeps (m := { m with objectives := m.objectives ++ [name] })
      (List.cons_subset.2 ⟨by simp, fun o ho ↦ List.mem_append_left _ (hm ho)⟩)
    exact ⟨trans_of R (hobjective m name) hrel, fun o ho ↦ hos (List.mem_cons_of_mem _ ho)⟩

theorem acts_testScore : Acts E os R (testScore site actor words) := by
  unfold testScore
  split
  · refine acts_bind (acts_useObjective hE hobjective _) fun _ ↦ ?_
    refine acts_bind (acts_singleScore hE actor _ _) fun a ↦ ?_
    extract_lets compare
    have hcompare (r : Unit) : Acts E os R (compare r) := by
      dsimp only [compare]
      split
      · exact acts_fault hE rfl
      · refine acts_bind (acts_useObjective hE hobjective _) fun _ ↦ ?_
        refine acts_bind (acts_singleScore hE actor _ _) fun b ↦ ?_
        split
        · split
          · exact acts_fault hE rfl
          · exact acts_pure
        · exact acts_pure
    split
    · split
      · exact acts_bind (acts_fault hE rfl) hcompare
      · exact acts_pure
    · exact hcompare ()
  · exact acts_fault hE rfl

omit hE hobjective [IsPreorder Machine R] in
theorem load_under (c w : Machine) (place : Place) : place.load (under c w) = place.load w := by
  cases place <;> rfl

include hdata

omit hobjective in
theorem acts_dataTarget : Acts E [] R (dataTarget site actor words) := by
  unfold dataTarget
  split
  · split
    · refine acts_change_pure (fun c w ↦ ?_) (fun m ↦ ?_) _
      · change (if Dict.has _ w.storage then _ else _) = _
        split <;> rfl
      · split
        · exact refl_of R m
        · exact hdata.storage m _ (Bool.eq_false_of_not_eq_true ‹_›)
    · split
      · refine acts_bind (acts_selectOrFault hE actor _) fun es ↦ ?_
        split <;> exact acts_pure
      · split
        · split
          · refine acts_bind (acts_positionOrFault hE actor _ _ _) fun p ↦ ?_
            refine acts_change_pure (fun c w ↦ ?_) (fun m ↦ ?_) _
            · change (if Dict.has _ w.blocks then _ else _) = _
              split <;> rfl
            · split
              · exact refl_of R m
              · exact hdata.block m _ (Bool.eq_false_of_not_eq_true ‹_›)
          · exact acts_fault hE rfl
        · exact acts_fault hE rfl
  · exact acts_fault hE rfl

omit hobjective in
theorem acts_testData : Acts E [] R (testData site actor words) := by
  refine acts_bind (acts_dataTarget hE actor hdata) fun target ↦ ?_
  split
  · exact acts_fault hE rfl
  · split
    · exact acts_pure
    · refine acts_bind (acts_pathOrFault hE _) fun _ ↦ ?_
      exact acts_get_bind (fun _ ↦ acts_pure) fun c w ↦ by rw [load_under]

omit hobjective in
theorem acts_modifySource (word : String) :
    Acts E [] R (modifySource site actor word words) := by
  unfold modifySource
  split
  · exact acts_bind (acts_tagOrFault hE) fun _ ↦ acts_pure
  · split
    · refine acts_bind (acts_dataTarget hE actor hdata) fun target ↦ ?_
      split
      · exact acts_pure
      · refine acts_get_bind (fun w ↦ ?_) fun c w ↦ ?_
        · dsimp only
          split
          · exact acts_pure
          · exact acts_bind (acts_pathOrFault hE _) fun _ ↦ acts_pure
        · dsimp only
          rw [load_under]
    · exact acts_fault hE rfl

theorem acts_test : Acts E [] R (test site actor words) := by
  unfold test
  split
  · split
    · exact acts_testScore hE actor hobjective
    · split
      · exact acts_testData hE actor hdata
      · split
        · exact acts_bind (acts_selectOrFault hE actor _) fun _ ↦ acts_pure
        · exact acts_fault hE rfl
  · exact acts_fault hE rfl

end Tests

variable (hR : AllowsAll R)
include hR

omit hE hR [IsPreorder Machine R] in
theorem setScore_under (c w : Machine) (h : Holder) (objective : String) (v : Int32) :
    setScore (under c w) h objective v = under c (setScore w h objective v) := by
  cases h <;> rfl

omit hE hR [IsPreorder Machine R] in
theorem score?_under (c w : Machine) (h : Holder) (objective : String) :
    score? (under c w) h objective = score? w h objective := by
  cases h <;> rfl

omit hE hR [IsPreorder Machine R] in
theorem resetScore_under (c w : Machine) (h : Holder) (objective : String) :
    resetScore (under c w) h objective = under c (resetScore w h objective) := by
  cases h with
  | player name =>
    have hscores : (under c w).scores = w.scores := rfl
    simp only [resetScore, hscores]
    cases Dict.find? objective w.scores <;> rfl
  | entity id => rfl

omit hE [IsPreorder Machine R] in
theorem rel_setScore {m : Machine} (hm : os ⊆ m.objectives) (h : Holder) (ho : objective ∈ os) (v : Int32) :
    R m (setScore m h objective v) ∧ os ⊆ (setScore m h objective v).objectives :=
  ⟨hR.scores.setScore m h v (hm ho), by cases h <;> exact hm⟩

theorem acts_scoreboardObjectives : Acts E [] R (scoreboardObjectives site words) := by
  have hknown {β : Type} (r : β) : Acts E [] R (get >>= fun _ ↦ pure r : Action β) :=
    acts_get_bind (fun _ ↦ acts_pure) fun _ _ ↦ rfl
  unfold scoreboardObjectives
  split
  · exact acts_fault hE rfl
  · split
    · refine acts_get_ite (fun _ _ ↦ Iff.rfl) (hknown _) (acts_get_set (fun _ _ ↦ rfl) (fun _ _ ↦ rfl) fun m _ ↦ ?_)
      exact ⟨hR.scores.newObjective m _, List.nil_subset _⟩
    · exact acts_fault hE rfl
  · split
    · refine acts_get_ite (fun _ _ ↦ Iff.rfl) (hknown _) (acts_get_set (fun _ _ ↦ rfl) (fun _ _ ↦ rfl) fun m _ ↦ ?_)
      exact ⟨hR.scores.withoutObjective m _, List.nil_subset _⟩
    · exact acts_fault hE rfl
  · exact acts_fault hE rfl

omit hE in
theorem acts_changeScores (f : Int32 → Int32) (objective : String) (hs : List Holder) :
    Acts E [objective] R (changeScores f objective hs) := by
  refine acts_bind (acts_forIn hs _ fun h last ↦ ?_) fun _ ↦ acts_pure
  refine acts_get_set (fun c w ↦ ?_) (fun c w ↦ ?_) fun m hm ↦ rel_setScore hR hm h List.mem_cons_self _
  · rw [score?_under, setScore_under]
  · rw [score?_under]

theorem acts_assignScores (word : String) (f : Int32 → Int32 → Int32) :
    Acts E [] R (assignScores site actor word f words) := by
  unfold assignScores
  split
  · split
    · exact acts_fault hE rfl
    · refine acts_use hE hR.scores.newObjective ?_
      exact acts_bind (acts_holdersOrFault hE actor _) fun hs ↦ acts_changeScores hR _ _ hs
  · exact acts_fault hE rfl

omit hE in
theorem acts_writeScore (ho : objective ∈ os) (t : Holder) (r : Option Int32) :
    Acts E os R (do
      let m ← get
      match r with
      | none => return none
      | some v => do
        set (setScore m t objective v)
        return some v : Action (Option Int32)) := by
  cases r with
  | none => exact acts_get_bind (fun _ ↦ acts_pure) fun _ _ ↦ rfl
  | some v =>
    exact acts_get_set (fun c w ↦ setScore_under c w t objective v) (fun _ _ ↦ rfl)
      fun m hm ↦ rel_setScore hR hm t ho v

theorem acts_operatePair (op objective objective' : String) (t s : Holder) :
    Acts E [objective', objective] R (operatePair site op objective objective' t s) := by
  refine acts_get_ite (fun _ _ ↦ Iff.rfl) ?_ ?_
  · refine acts_get_set (fun c w ↦ ?_) (fun c w ↦ ?_) fun m hm ↦ ?_
    · rw [score?_under, score?_under, setScore_under, setScore_under]
    · rw [score?_under]
    · obtain ⟨hrel, hm'⟩ := rel_setScore hR hm t (List.mem_cons_of_mem _ List.mem_cons_self)
        ((score? m s objective').getD 0)
      exact (rel_setScore hR hm' s List.mem_cons_self _).imp_left (trans_of R hrel)
  · cases ScoreOp.parse? op with
    | none => exact acts_get_bind (fun _ ↦ acts_fault hE rfl) fun _ _ ↦ rfl
    | some op =>
      have ho : objective ∈ [objective', objective] := by simp
      have hwrite := acts_get_view (E := E)
        (v := fun m ↦ op.apply ((score? m t objective).getD 0) ((score? m s objective').getD 0))
        (fun c w ↦ by rw [score?_under, score?_under]) (acts_writeScore hR ho t)
      exact hwrite

theorem acts_operateScores (op objective objective' : String) (targets sources : List Holder) :
    Acts E [objective', objective] R (operateScores site op objective objective' targets sources) := by
  refine acts_bind (acts_forIn targets _ fun t b ↦ ?_) fun _ ↦ acts_pure
  refine acts_bind (acts_forIn sources _ fun s b ↦ ?_) fun _ ↦ acts_pure
  refine acts_bind (acts_operatePair hE hR op objective objective' t s) fun r ↦ ?_
  cases r <;> exact acts_pure

omit hE hR [IsPreorder Machine R] in
theorem resetScores_under (h : Holder) (objectives : List String) (c w : Machine) :
    objectives.foldl (resetScore · h ·) (under c w) = under c (objectives.foldl (resetScore · h ·) w) := by
  induction objectives generalizing w with
  | nil => rfl
  | cons o os ih => rw [List.foldl_cons, List.foldl_cons, resetScore_under, ih]

theorem acts_scoreboardPlayers : Acts E [] R (scoreboardPlayers site actor words) := by
  unfold scoreboardPlayers
  split
  · exact acts_fault hE rfl
  · exact acts_assignScores hE actor hR _ _
  · exact acts_assignScores hE actor hR _ _
  · exact acts_assignScores hE actor hR _ _
  · split
    · refine acts_bind (acts_useObjective hE hR.scores.newObjective _) fun _ ↦ ?_
      refine acts_bind (acts_singleScore hE actor _ _) fun r ↦ ?_
      cases r <;> exact acts_pure
    · exact acts_fault hE rfl
  · split
    · refine acts_bind (acts_holdersOrFault hE actor _) fun hs ↦ ?_
      refine acts_bind (acts_forIn hs _ fun h _ ↦ ?_) fun _ ↦ acts_pure
      split
      · exact acts_change_pure (fun c w ↦ resetScore_under c w h _) (fun m ↦ hR.scores.resetScore m h _) _
      · refine acts_change_pure (fun c w ↦ resetScores_under h _ c w) (fun m ↦ ?_) _
        exact List.foldlRecOn m.objectives _ (refl_of R m)
          fun m' hm' o _ ↦ trans_of R hm' (hR.scores.resetScore m' h o)
    · exact acts_fault hE rfl
  · split
    · refine acts_use hE hR.scores.newObjective (acts_use hE hR.scores.newObjective ?_)
      refine acts_bind (acts_holdersOrFault hE actor _) fun targets ↦ ?_
      refine acts_bind (acts_holdersOrFault hE actor _) fun sources ↦ ?_
      exact acts_operateScores hE hR _ _ _ targets sources
    · exact acts_fault hE rfl
  · exact acts_fault hE rfl

theorem acts_scoreboard : Acts E [] R (scoreboard site actor words) := by
  unfold scoreboard
  split
  · split
    · exact acts_scoreboardObjectives hE hR
    · split
      · exact acts_scoreboardPlayers hE actor hR
      · exact acts_fault hE rfl
  · exact acts_fault hE rfl

omit hE hR [IsPreorder Machine R] in
theorem save_under (c w : Machine) (place : Place) (fields : Dict Tag) :
    place.save fields (under c w) = under c (place.save fields w) := by
  cases place <;> rfl

omit hE [IsPreorder Machine R] in
theorem acts_save (place : Place) (fields : Dict Tag) (a : α) :
    Acts E [] R (do
      let m ← get
      set (place.save fields m)
      return a : Action α) :=
  acts_get_set (fun c w ↦ save_under c w place fields) (fun _ _ ↦ rfl)
    fun m _ ↦ ⟨hR.data m place fields, List.nil_subset _⟩

omit hE in
theorem acts_saveTree (place : Place) (r : Tag × Option Tag.Misfit) :
    Acts E [] R (do
      let m ← get
      match r.1 with
      | .compound fields => do
        set (place.save fields m)
        return r.2
      | _ => do return r.2 : Action (Option Tag.Misfit)) := by
  rcases r with ⟨t, misfit⟩
  cases t with
  | compound fields => exact acts_save hR place fields _
  | _ => exact acts_get_bind (fun _ ↦ acts_pure) fun _ _ ↦ rfl

omit hE in
theorem acts_changePlace (place : Place) (f : Tag → Tag × Option Tag.Misfit) :
    Acts E [] R (changePlace place f) := by
  have hsave := acts_get_view (E := E) (v := fun m ↦ f (.compound (place.load m)))
    (fun c w ↦ by rw [load_under]) (acts_saveTree hR place)
  exact hsave

omit hE in
theorem acts_tryChange (place : Place) (change : Tag → Tag × Option Tag.Misfit) :
    Acts E [] R (do
      match ← changePlace place change with
      | none => return ⟨1, true⟩
      | some _ => return .failed : Action Result) := by
  refine acts_bind (acts_changePlace hR place change) fun r ↦ ?_
  cases r <;> exact acts_pure

theorem acts_modifyWith (place : Place) (path : List Tag.Step) (action : String) (v : Tag) :
    Acts E [] R (modifyWith site place path action v) := by
  have hput (change : Tag → Tag × Option Tag.Misfit) := acts_tryChange (E := E) hR place change
  unfold modifyWith
  dsimp only
  split
  · exact acts_bind acts_pure hput
  · split
    · exact acts_bind acts_pure hput
    · split
      · exact acts_bind acts_pure hput
      · split
        · split
          · exact acts_bind acts_pure hput
          · exact acts_bind (acts_fault hE rfl) hput
        · exact acts_bind (acts_fault hE rfl) hput

theorem acts_dataModify (place : Place) :
    Acts E [] R (dataModify site actor place words) := by
  unfold dataModify
  split
  · refine acts_check hE rfl (acts_bind (acts_pathOrFault hE _) fun path ↦ ?_)
    split
    · refine acts_bind (acts_modifySource hE actor hR.data.newData _) fun r ↦ ?_
      cases r
      · exact acts_pure
      · exact acts_modifyWith hE hR place path _ _
    · exact acts_fault hE rfl
  · exact acts_fault hE rfl

omit hR in
theorem acts_dataGet (place : Place) : Acts E os R (dataGet site place words) := by
  unfold dataGet
  split
  · exact acts_get_bind (fun _ ↦ acts_pure) fun c w ↦ by rw [load_under]
  · refine acts_bind (acts_pathOrFault hE _) fun path ↦ acts_get_bind (fun w ↦ ?_) fun c w ↦ ?_
    · split
      · exact acts_pure
      · split
        · exact acts_pure
        · exact acts_bind (acts_scaleOrFault hE _) fun _ ↦ acts_pure
    · rw [load_under]

omit hE in
theorem acts_saveRemoved (place : Place) (r : Option Tag) :
    Acts E [] R (do
      let m ← get
      match r with
      | some (.compound fields) => do
        set (place.save fields m)
        return (⟨1, true⟩ : Result)
      | _ => return Result.failed : Action Result) := by
  split
  · exact acts_save hR place _ _
  · exact acts_get_bind (fun _ ↦ acts_pure) fun _ _ ↦ rfl

theorem acts_dataRemove (place : Place) : Acts E [] R (dataRemove site place words) := by
  unfold dataRemove
  split
  · exact acts_fault hE rfl
  · refine acts_bind (acts_pathOrFault hE _) fun path ↦ ?_
    have hsave := acts_get_view (E := E) (v := fun m ↦ Tag.remove? path (.compound (place.load m)))
      (fun c w ↦ by rw [load_under]) (acts_saveRemoved hR place)
    exact hsave

theorem acts_dataMerge (place : Place) : Acts E [] R (dataMerge site place words) := by
  unfold dataMerge
  split
  · exact acts_fault hE rfl
  · refine acts_bind (acts_tagOrFault hE) fun t ↦ ?_
    split
    · refine acts_change_pure (fun c w ↦ ?_) (fun m ↦ hR.data m place _) _
      rw [load_under, save_under]
    · exact acts_fault hE rfl

theorem acts_data : Acts E [] R (data site actor words) := by
  unfold data
  split
  · refine acts_bind (acts_dataTarget hE actor hR.data.newData) fun target ↦ ?_
    split
    · exact acts_pure
    · dsimp only
      split
      · exact acts_dataGet hE _
      · split
        · exact acts_dataRemove hE hR _
        · split
          · exact acts_dataMerge hE hR _
          · split
            · exact acts_dataModify hE actor hR _
            · exact acts_fault hE rfl
  · exact acts_fault hE rfl

omit hE hR [IsPreorder Machine R] in
theorem scores_withData (e : Entity) (fields : Dict Tag) : (e.withData fields).scores = e.scores := by
  have htags (tags : List String) (e : Entity) :
      (tags.foldl (fun e tag ↦ if e.tags.contains tag then e else e.addTag tag) e).scores = e.scores := by
    induction tags generalizing e with
    | nil => rfl
    | cons tag tags ih =>
      rw [List.foldl_cons, ih]
      split <;> rfl
  rw [Entity.withData]
  induction fields generalizing e with
  | nil => rfl
  | cons field fields ih =>
    rw [List.foldl_cons, ih]
    dsimp only
    split
    · rfl
    · split
      · exact htags _ e
      · rfl

theorem acts_summonAt (type : String) (rest : List String) (pos : Position) : Acts E [] R (do
    let id := (← get).lastEntity + 1
    modify fun m => { m with lastEntity := id }
    let e := Entity.summoned id type pos
    let e ← if rest.isEmpty then pure e else
      match ← tagOrFault site rest with
      | .compound fields => pure (e.withData fields)
      | _ => fault site .summonNeedsCompound
    modify fun m => { m with entities := m.entities ++ [e] }
    return ⟨1, true⟩ : Action Result) := by
  have hend {e : Entity} (he : e.scores = []) : Acts E [] R (do
      modify fun m => { m with entities := m.entities ++ [e] }
      return ⟨1, true⟩ : Action Result) :=
    acts_change_pure (fun _ _ ↦ rfl) (fun m ↦ hR.entities.join m he) _
  refine acts_get_bind (fun w ↦ acts_bind (acts_change (fun _ _ ↦ rfl) fun m ↦ hR.entities.lastEntity m _)
    fun _ ↦ ?_) fun _ _ ↦ rfl
  dsimp only
  split
  · rw [pure_bind]
    exact hend rfl
  · refine acts_bind (acts_tagOrFault hE) fun t ↦ ?_
    split
    · rw [pure_bind]
      exact hend (scores_withData _ _)
    · exact acts_fault hE rfl

theorem acts_summon : Acts E [] R (summon site actor words) := by
  have hplace (type : String) (rest : List String) (pos : Position) := acts_summonAt hE hR type rest pos
  unfold summon
  split
  · exact acts_fault hE rfl
  · dsimp only
    split
    · exact acts_bind (acts_positionOrFault hE actor _ _ _) fun pos ↦ acts_bind acts_pure fun _ ↦ hplace _ _ _
    · exact acts_bind acts_pure fun _ ↦ hplace _ _ _

theorem acts_kill : Acts E [] R (kill site actor words) := by
  refine acts_bind (acts_selectOrFault hE actor _) fun es ↦ ?_
  exact acts_change_pure (fun _ _ ↦ rfl) (fun m ↦ hR.entities.remove m _) _

omit hE in
theorem acts_updateEntity (id : Nat) {f : Entity → Entity}
    (hf : ∀ e, (f e).id = e.id ∧ (f e).scores = e.scores ∧ (f e).alive = e.alive) (a : α) :
    Acts E [] R (modify (updateEntity · id f) >>= fun _ ↦ pure a : Action α) :=
  acts_change_pure (fun _ _ ↦ rfl) (fun m ↦ hR.entities.update m id hf) a

theorem acts_changeTags (word name : String) (es : List Entity) : Acts E [] R (changeTags site word name es) := by
  refine acts_bind (acts_forIn es _ fun e n ↦ ?_) fun _ ↦ acts_pure
  split
  · split
    · exact acts_updateEntity hR e.id (f := (·.addTag name)) (fun _ ↦ ⟨rfl, rfl, rfl⟩) _
    · exact acts_pure
  · split
    · split
      · refine acts_updateEntity hR _ (fun e ↦ ?_) _
        rw [Entity.removeTag]
        split <;> exact ⟨rfl, rfl, rfl⟩
      · exact acts_pure
    · exact acts_bind (acts_fault hE rfl) fun _ ↦ acts_pure

theorem acts_tag : Acts E [] R (tag site actor words) := by
  unfold tag
  split
  · refine acts_bind (acts_selectOrFault hE actor _) fun es ↦ ?_
    split
    · exact acts_pure
    · split
      · exact acts_bind (acts_changeTags hE hR _ _ es) fun _ ↦ acts_pure
      · exact acts_fault hE rfl
  · exact acts_fault hE rfl

omit hR in
theorem acts_destination : Acts E os R (destination site actor words) := by
  unfold destination
  split
  · refine acts_check hE rfl (acts_bind (acts_selectOrFault hE actor _) fun es ↦ ?_)
    split <;> exact acts_pure
  · exact acts_bind (acts_positionOrFault hE actor _ _ _) fun _ ↦ acts_pure
  · exact acts_fault hE rfl

theorem acts_teleportTo (ids : List Nat) (dest : List String) : Acts E [] R (do
    match ← destination site actor dest with
    | none => return .failed
    | some pos =>
      for id in ids do
        modify fun m => m.updateEntity id (·.setPos pos)
      return ⟨Int32.ofNat ids.length, !ids.isEmpty⟩ : Action Result) := by
  refine acts_bind (acts_destination hE actor) fun r ↦ ?_
  cases r with
  | none => exact acts_pure
  | some pos =>
    refine acts_bind (acts_forIn ids _ fun id _ ↦ ?_) fun _ ↦ acts_pure
    exact acts_updateEntity hR id (f := (·.setPos pos)) (fun _ ↦ ⟨rfl, rfl, rfl⟩) _

theorem acts_teleport : Acts E [] R (teleport site actor words) := by
  have hgo (ids : List Nat) (dest : List String) := acts_teleportTo hE actor hR ids dest
  unfold teleport
  dsimp only
  split
  · split
    · exact acts_bind (acts_selectOrFault hE actor _) fun es ↦ acts_bind acts_pure fun _ ↦ hgo _ _
    · split
      · exact acts_bind acts_pure fun _ ↦ hgo _ _
      · exact acts_bind (acts_fault hE rfl) fun _ ↦ hgo _ _
  · exact acts_bind (acts_fault hE rfl) fun _ ↦ hgo _ _

omit hE hR

omit [IsPreorder Machine R] in
theorem acts_ofAction {a : Action α} (h : Acts E os R a) : Acts (fun _ ↦ True) os R (Flatten.ofAction a) := by
  refine ⟨fun c w ↦ ?_, fun _ ↦ trivial, fun {m} hm ↦ ?_⟩
  · simp only [Flatten.ofAction, h.under c w]
    rcases a w with ⟨e | x, w'⟩ <;> rfl
  · have hkeeps := h.keeps hm
    simp only [Flatten.ofAction]
    rcases hrun : a m with ⟨e | x, m'⟩ <;> simpa [hrun] using hkeeps

theorem acts_flattenScore (site : Site) (fields : Dict Json) :
    Acts (fun _ ↦ True) os R (flattenScore site actor fields) := by
  refine acts_bind (acts_ofAction (acts_singleScore (blames_any site) actor _ _)) fun r ↦ ?_
  cases r <;> exact acts_pure

theorem acts_flattenSelector (s : String) : Acts (fun _ ↦ True) os R (flattenSelector actor s) := by
  refine acts_get_bind (fun w ↦ ?_) fun _ _ ↦ rfl
  split
  · exact acts_throw trivial
  · exact acts_pure

include hR

theorem acts_flattenData (site : Site) (path : String) (fields : Dict Json) :
    Acts (fun _ ↦ True) [] R (flattenData site actor path fields) := by
  unfold flattenData
  split
  · exact acts_throw trivial
  · refine acts_bind (acts_ofAction (acts_dataTarget (blames_any site) actor hR.data.newData)) fun target ↦ ?_
    split
    · exact acts_pure
    · split
      · exact acts_throw trivial
      · refine acts_get_bind (fun w ↦ ?_) fun c w ↦ by rw [load_under]
        split <;> exact acts_pure

theorem acts_flattenContent (site : Site) (fields : Dict Json) :
    Acts (fun _ ↦ True) [] R (flattenContent site actor fields) := by
  unfold flattenContent
  split
  · exact acts_pure
  · split
    · exact acts_flattenScore actor site _
    · split
      · exact acts_flattenData actor hR site _ fields
      · split
        · exact acts_flattenSelector actor _
        · exact acts_pure

theorem acts_flatten (site : Site) (v : Json) : Acts (fun _ ↦ True) [] R (flatten site actor v) := by
  refine (flatten.mutual_induct site actor (fun v ↦ Acts (fun _ ↦ True) [] R (flatten site actor v))
    (fun k fields ↦ Acts (fun _ ↦ True) [] R (flattenField k site actor fields))
    (fun fields ↦ Acts (fun _ ↦ True) [] R (flattenExtra site actor fields))
    (fun items ↦ Acts (fun _ ↦ True) [] R (flattenItems site actor items))
    ?string ?number ?bool ?null ?array ?own ?content ?nil ?cons ?fieldNil ?fieldHere ?fieldNext
    ?extraNil ?extraItems ?extraOther ?extraNext).1 v
  case string | number | bool | null | nil | fieldNil | extraNil =>
    intros
    exact acts_pure
  case array => exact fun items ih ↦ ih
  case own =>
    intro fields v h hextra hfield
    simp only [flatten, h]
    exact acts_bind hfield fun _ ↦ acts_bind hextra fun _ ↦ acts_pure
  case content =>
    intro fields h hextra
    simp only [flatten, h]
    exact acts_bind (acts_flattenContent actor hR site fields) fun _ ↦ acts_bind hextra fun _ ↦ acts_pure
  case cons =>
    intro v vs hv hvs
    exact acts_bind hv fun _ ↦ acts_bind hvs fun _ ↦ acts_pure
  case fieldHere =>
    intro k v fs hv
    simpa [flattenField] using hv
  case fieldNext =>
    intro k k' v fs hne ih
    simpa [flattenField, hne] using ih
  case extraItems =>
    intro fs items ih
    rw [flattenExtra.eq_def]
    exact ih
  case extraOther =>
    intro v fs hne
    rw [flattenExtra.eq_def]
    dsimp only
    rw [if_pos rfl]
    split
    · exact absurd rfl (hne _)
    · exact acts_pure
  case extraNext =>
    intro k v fs hne ih
    rw [flattenExtra.eq_def]
    dsimp only
    rwa [if_neg hne]

theorem acts_flattenText (site : Site) (raw : String) : Acts (fun _ ↦ True) [] R (flattenText site actor raw) := by
  unfold flattenText
  split
  · exact acts_throw trivial
  · split
    · exact acts_flatten actor hR site _
    · exact acts_throw trivial

theorem acts_post (line : String) : Acts E [] R (post line) :=
  acts_change_pure (fun _ _ ↦ rfl) (fun m ↦ hR.chat m _) _

theorem acts_say : Acts E [] R (say actor words) :=
  acts_get_bind (fun _ ↦ acts_post hR _) fun _ _ ↦ rfl

include hE

theorem acts_tellraw : Acts E [] R (tellraw site actor words) := by
  unfold tellraw
  split
  · rename_i arg args
    have htext := acts_flattenText actor hR site (Text.join " " (arg :: args))
    refine ⟨fun c w ↦ ?_, fun {w e} he ↦ ?_, fun {m} hm ↦ ⟨?_, List.nil_subset _⟩⟩
    · simp only [bind_apply, get_apply, andThen_ok, htext.under c w]
      rcases flattenText site actor (Text.join " " (arg :: args)) w with ⟨text | line, w'⟩ <;> rfl
    · simp only [bind_apply, get_apply, andThen_ok] at he
      rcases hflat : flattenText site actor (Text.join " " (arg :: args)) w with ⟨text | line, w'⟩ <;>
        rw [hflat] at he <;> cases he
      exact hE _ rfl
    · have hrel := htext.all m
      simp only [bind_apply, get_apply, andThen_ok]
      rcases h : flattenText site actor (Text.join " " (arg :: args)) m with ⟨text | line, m'⟩ <;> rw [h] at hrel
      · exact hrel
      · exact trans_of R hrel ((acts_post (E := E) hR line).all m')
  · exact acts_fault hE rfl

omit hR in
theorem acts_readStore : Acts E os R (readStore site words) := by
  unfold readStore
  split
  · split
    · exact acts_fault hE rfl
    · exact acts_check hE rfl (acts_check hE rfl acts_pure)
  · exact acts_fault hE rfl

theorem acts_storeData (place : Place) (v : Int32) :
    Acts E [] R (storeData site place v words) := by
  unfold storeData
  split
  · refine acts_bind (acts_pathOrFault hE _) fun path ↦ ?_
    refine acts_bind (acts_scaleOrFault hE _) fun scale ↦ ?_
    split
    · exact acts_fault hE rfl
    · refine acts_bind (acts_changePlace hR _ _) fun r ↦ ?_
      cases r
      · exact acts_pure
      · exact acts_fault hE rfl
  · exact acts_pure

theorem acts_store (s : Store) (r : Result) : Acts E [] R (s.apply site actor r) := by
  unfold Store.apply
  dsimp only
  split
  · refine acts_use hE hR.scores.newObjective (acts_bind (acts_holdersOrFault hE actor _) fun hs ↦ ?_)
    refine acts_bind (acts_forIn hs _ fun h _ ↦ ?_) fun _ ↦ acts_pure
    refine acts_bind ⟨fun c w ↦ congrArg (Prod.mk _) (setScore_under c w h _ _), nofun, fun hm ↦ ?_⟩ fun _ ↦ acts_pure
    exact rel_setScore hR hm h List.mem_cons_self _
  · refine acts_bind (acts_dataTarget hE actor hR.data.newData) fun target ↦ ?_
    split
    · exact acts_pure
    · exact acts_storeData hE hR _ _

theorem acts_applyStores (stores : List Store) (r : Result) : Acts E [] R (applyStores stores site actor r) := by
  refine acts_bind (acts_forIn stores _ fun s _ ↦ ?_) fun _ ↦ acts_pure
  exact acts_bind (acts_store hE actor hR s r) fun _ ↦ acts_pure

omit hR in
theorem acts_redirect (word target : String) (actors : List Actor) :
    Acts E os R (redirect site word target actors) := by
  refine acts_bind (acts_forIn actors _ fun a next ↦ ?_) fun _ ↦ acts_pure
  exact acts_bind (acts_selectOrFault hE a target) fun _ ↦ acts_pure

theorem acts_filterActors (sense : Bool) (actors : List Actor) :
    Acts E [] R (filterActors site sense words actor actors) := by
  unfold filterActors
  split
  · exact acts_bind (acts_test hE actor hR.scores.newObjective hR.data.newData) fun _ ↦ acts_pure
  · refine acts_bind (acts_forIn actors _ fun a r ↦ ?_) fun _ ↦ acts_pure
    refine acts_bind (acts_test hE a hR.scores.newObjective hR.data.newData) fun t ↦ ?_
    dsimp only
    split <;> exact acts_pure

theorem acts_clause (c : Chain) (word : String) : Acts E [] R (c.clause site word words) := by
  unfold Chain.clause
  split
  · split
    · exact acts_fault hE rfl
    · exact acts_bind (acts_redirect hE _ _ _) fun _ ↦ acts_pure
  · split
    · split
      · refine acts_bind (acts_forIn c.actors _ fun a next ↦ ?_) fun _ ↦ acts_pure
        exact acts_bind (acts_positionOrFault hE a _ _ _) fun _ ↦ acts_pure
      · exact acts_fault hE rfl
    · split
      · exact acts_bind (acts_filterActors hE _ hR _ _) fun _ ↦ acts_pure
      · split
        · exact acts_bind (acts_readStore hE) fun _ ↦ acts_pure
        · exact acts_fault hE rfl

theorem acts_chainFinish (c : Chain) : Acts E [] R (c.finish site) := by
  refine acts_bind (acts_forIn c.actors _ fun a _ ↦ ?_) fun _ ↦ acts_pure
  exact acts_bind (acts_applyStores hE a hR _ _) fun _ ↦ acts_pure

def setsBudget : List String → Bool
  | word :: name :: _ :: _ => word == "gamerule" && name == "maxCommandChainLength"
  | _ => false

theorem acts_gamerule (hwords : setsBudget ("gamerule" :: words) = false) : Acts E [] R (gamerule site words) := by
  unfold gamerule
  split
  · exact acts_fault hE rfl
  · exact acts_get_bind (fun _ ↦ acts_pure) fun _ _ ↦ rfl
  · rename_i name value _
    have hname : name ≠ "maxCommandChainLength" := by simpa [setsBudget] using hwords
    rw [if_neg hname]
    exact acts_change_pure (fun _ _ ↦ rfl) (fun m ↦ hR.rules m _ m.maxCommands) _

/-- A command other than a call works on the world alone, unless it sets the budget of the run. -/
theorem acts_simple (call : Call) {word : String} (hword : word ≠ "function")
    (hbudget : setsBudget (word :: words) = false) : Acts E [] R (simple call site actor word words) := by
  unfold simple
  split
  · exact acts_scoreboard hE actor hR
  split
  · exact acts_data hE actor hR
  split
  · exact acts_summon hE actor hR
  split
  · exact acts_kill hE actor hR
  split
  · exact acts_tag hE actor hR
  split
  · exact acts_teleport hE actor hR
  split
  · exact acts_tellraw hE actor hR
  split
  · exact acts_say actor hR
  split
  · rename_i hrule
    exact acts_gamerule hE hR (hrule ▸ hbudget)
  · exact acts_fault hE rfl

end Commands

section Calls

variable [IsPreorder Machine R] (site : Site) (actor : Actor)

theorem keeps_useObjective (hobjective : AllowsNewObjective R) (name : String) : Keeps R (useObjective site name) :=
  (acts_useObjective (blames_any site) hobjective name).all

theorem keeps_test (hobjective : AllowsNewObjective R) (hdata : AllowsNewData R) (words : List String) :
    Keeps R (test site actor words) :=
  (acts_test (blames_any site) actor hobjective hdata).all

variable {call : Call} (hcall : ∀ path caller site actor, Keeps R (call path caller site actor)) (hR : AllowsAll R)
include hR

theorem keeps_applyStores (stores : List Store) (r : Result) : Keeps R (applyStores stores site actor r) :=
  (acts_applyStores (blames_any site) actor hR stores r).all

theorem keeps_runEach (c : Chain) {run : Actor → Action Result} (h : ∀ a, Keeps R (run a)) :
    Keeps R (c.runEach site run) := by
  refine keeps_bind (keeps_forIn c.actors _ fun a r ↦ ?_) fun _ ↦ keeps_pure
  refine keeps_bind (h a) fun r ↦ keeps_bind (keeps_applyStores site a hR _ r) fun _ ↦ ?_
  dsimp only
  split <;> exact keeps_pure

include hcall

omit hR in
theorem keeps_function (words : List String) : Keeps R (function call site actor words) := by
  unfold function
  split
  · exact keeps_fault site _
  · split
    · exact hcall _ _ _ _
    · refine keeps_bind keeps_get fun m ↦ ?_
      split
      · exact keeps_fault site _
      · refine keeps_bind ?_ fun _ ↦ keeps_pure
        refine keeps_bind (keeps_forIn _ _ fun path _ ↦ ?_) fun _ ↦ keeps_pure
        exact keeps_bind (hcall _ _ _ _) fun _ ↦ keeps_pure

omit hcall in
theorem keeps_gamerule (words : List String) : Keeps R (gamerule site words) := by
  have hset (name value : String) : Keeps R (do
      modify fun m => { m with rules := Dict.insert name value m.rules }
      return ⟨1, true⟩ : Action Result) :=
    keeps_bind (keeps_modify fun m ↦ hR.rules m _ m.maxCommands) fun _ ↦ keeps_pure
  unfold gamerule
  split
  · exact keeps_fault site _
  · exact keeps_bind keeps_get fun _ ↦ keeps_pure
  · dsimp only
    split
    · split
      · exact keeps_bind (keeps_modify fun m ↦ hR.rules m m.rules _) fun _ ↦ hset _ _
      · exact keeps_bind (keeps_fault site _) fun _ ↦ hset _ _
    · exact hset _ _

theorem keeps_simple (word : String) (words : List String) : Keeps R (simple call site actor word words) := by
  by_cases hword : word = "function"
  · subst hword
    exact keeps_function site actor hcall words
  by_cases hrule : word = "gamerule"
  · have hsimple : simple call site actor word words = gamerule site words := by simp [simple, hrule]
    rw [hsimple]
    exact keeps_gamerule site hR words
  · refine (acts_simple (blames_any site) actor hR call hword ?_).all
    rcases words with _ | ⟨name, _ | ⟨value, rest⟩⟩ <;> simp [setsBudget, hrule]

theorem keeps_perform (words : List String) : Keeps R (perform call site words actor) := by
  suffices h : (∀ actor, Keeps R (perform call site words actor)) ∧
      ∀ skip c, Keeps R (chain call site skip words c) from h.1 actor
  induction words with
  | nil =>
    refine ⟨fun _ ↦ keeps_fault site _, fun skip c ↦ ?_⟩
    rw [chain.eq_def]
    exact (acts_chainFinish (blames_any site) hR c).all
  | cons word args ih =>
    refine ⟨fun actor ↦ ?_, fun skip c ↦ ?_⟩
    · rw [perform.eq_def]
      dsimp only
      split
      · exact ih.2 0 _
      · exact keeps_simple site actor hcall hR word args
    · rw [chain.eq_def]
      cases skip with
      | succ skip => exact ih.2 skip c
      | zero =>
        dsimp only
        split
        · split
          · exact keeps_fault site _
          · exact keeps_runEach site hR c ih.1
        · exact keeps_bind (acts_clause (blames_any site) hR c word).all fun _ ↦ ih.2 _ _

end Calls

section Runs

variable [IsPreorder Machine R] (hcounters : AllowsCounters R) (hR : AllowsAll R)
include hcounters hR

theorem keeps_step {call : Call} (hcall : ∀ path caller site actor, Keeps R (call path caller site actor))
    (site : Site) (actor : Actor) : Keeps R (step call site actor) := by
  refine keeps_bind (keeps_countCommand hcounters site) fun _ ↦ ?_
  refine keeps_bind (keeps_watchCommand hcounters site) fun _ ↦ ?_
  split
  · exact keeps_fault site _
  · exact keeps_perform site actor hcall hR _

theorem keeps_runLines {call : Call} (hcall : ∀ path caller site actor, Keeps R (call path caller site actor))
    (path : String) (frames : List Frame) (actor : Actor) (line : Nat) (lines : List String) :
    Keeps R (runLines call path frames actor line lines) := by
  induction lines generalizing line with
  | nil => exact keeps_pure
  | cons l ls ih => exact keeps_bind (keeps_step hcounters hR hcall _ actor) fun _ ↦ ih (line + 1)

theorem keeps_callFunction (depth : Nat) (path caller : String) (site : Site) (actor : Actor) :
    Keeps R (callFunction depth path caller site actor) := by
  induction depth generalizing path caller site actor with
  | zero =>
    rw [callFunction.eq_def]
    refine keeps_bind keeps_get fun m ↦ ?_
    split <;> exact keeps_fault site _
  | succ depth ih =>
    rw [callFunction.eq_def]
    refine keeps_bind keeps_get fun m ↦ ?_
    split
    · exact keeps_fault site _
    · refine keeps_bind (keeps_watchCall hcounters _ path caller) fun _ ↦ ?_
      refine keeps_bind (keeps_runLines hcounters hR ih path site.frames actor 1 _) fun _ ↦ ?_
      exact keeps_bind (keeps_watchReturn hcounters site path) fun _ ↦ keeps_pure

end Runs

end CommandPack.Machine
