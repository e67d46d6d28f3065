import Mathlib
import CommandPack.Proofs.Dictionary
import CommandPack.Proofs.Watching

/-!
Scores are kept in existing objectives only. Every command that gives a score uses the objective first, and a
command that removes an objective takes the scores in it along; so whatever a machine is asked to do, at every
moment all scores are in objectives that there are.
-/

namespace CommandPack.Machine

open Stateful

variable {m m' : Machine} {h h' : Holder} {o o' : String}

def HasScore (m : Machine) (o : String) : Holder → Prop
  | .player name => (score? m (.player name) o).isSome = true
  | .entity id => ∃ e ∈ m.living, e.id = id ∧ (Dict.find? o e.scores).isSome = true

def Registered (m : Machine) : Prop := ∀ h o, m.HasScore o h → o ∈ m.objectives

/-- A machine gives no score to anyone who had none in another. -/
structure GivesNone (m m' : Machine) : Prop where
  objectives : m.objectives ⊆ m'.objectives
  players (name o : String) (h : (score? m' (.player name) o).isSome = true) :
    (score? m (.player name) o).isSome = true
  entities (e' : Entity) (he' : e' ∈ m'.entities) (halive : e'.alive = true) (o : String)
    (h : (Dict.find? o e'.scores).isSome = true) :
    ∃ e ∈ m.entities, e.alive = true ∧ e.id = e'.id ∧ (Dict.find? o e.scores).isSome = true

theorem mem_living {e : Entity} : e ∈ m.living ↔ e ∈ m.entities ∧ e.alive = true := List.mem_filter

theorem GivesNone.hasScore (hm : GivesNone m m') (h : m'.HasScore o h') : m.HasScore o h' := by
  cases h' with
  | player name => exact hm.players name o h
  | entity id =>
    obtain ⟨e', he', rfl, hscore⟩ := h
    rw [mem_living] at he'
    obtain ⟨e, he, halive, hid, hscore⟩ := hm.entities e' he'.1 he'.2 o hscore
    exact ⟨e, mem_living.2 ⟨he, halive⟩, hid, hscore⟩

theorem GivesNone.registered (hm : GivesNone m m') (h : m.Registered) : m'.Registered :=
  fun holder o hscore ↦ hm.objectives (h holder o (hm.hasScore hscore))

theorem givesNone_map {f : Entity → Entity}
    (hf : ∀ e, (f e).alive = true → e.alive = true ∧ e.id = (f e).id ∧
      ∀ o, (Dict.find? o (f e).scores).isSome = true → (Dict.find? o e.scores).isSome = true) :
    GivesNone m { m with entities := m.entities.map f } := by
  refine ⟨List.Subset.refl _, fun _ _ ↦ id, fun e' he' halive o hscore ↦ ?_⟩
  obtain ⟨e, he, rfl⟩ := List.mem_map.1 he'
  obtain ⟨halive, hid, hscores⟩ := hf e halive
  exact ⟨e, he, halive, hid, hscores o hscore⟩

theorem givesNone_update (id : Nat) {f : Entity → Entity}
    (hf : ∀ e, (f e).alive = e.alive ∧ (f e).id = e.id ∧
      ∀ o, (Dict.find? o (f e).scores).isSome = true → (Dict.find? o e.scores).isSome = true) :
    GivesNone m (m.updateEntity id f) := by
  refine givesNone_map fun e ↦ ?_
  split
  · intro halive
    exact ⟨(hf e).1 ▸ halive, (hf e).2.1.symm, (hf e).2.2⟩
  · exact fun halive ↦ ⟨halive, rfl, fun _ hscore ↦ hscore⟩

theorem givesNone_resetScore (m : Machine) (h : Holder) (o : String) : GivesNone m (resetScore m h o) := by
  cases h with
  | player name =>
    rw [resetScore]
    split
    · rename_i scores hfound
      refine ⟨List.Subset.refl _, fun name' o' hscore ↦ ?_, fun e he halive o hscore ↦ ⟨e, he, halive, rfl, hscore⟩⟩
      by_cases ho : o = o'
      · subst ho
        simp only [score?, Dict.find?_insert, if_true, Option.bind_some, Dict.find?_erase] at hscore
        split at hscore
        · cases hscore
        · simpa [score?, hfound] using hscore
      · simpa [score?, ho] using hscore
    · exact ⟨List.Subset.refl _, fun _ _ ↦ id, fun e he halive o hscore ↦ ⟨e, he, halive, rfl, hscore⟩⟩
  | entity id =>
    refine givesNone_update id fun e ↦ ⟨rfl, rfl, fun o' hscore ↦ ?_⟩
    rw [Dict.find?_erase] at hscore
    split at hscore
    · cases hscore
    · exact hscore

theorem objectives_resetScore (m : Machine) (h : Holder) (o : String) : (resetScore m h o).objectives = m.objectives := by
  cases h with
  | player name =>
    rw [resetScore]
    split <;> rfl
  | entity id => rfl

theorem not_hasScore_resetScore (m : Machine) (h : Holder) (o : String) : ¬ (resetScore m h o).HasScore o h := by
  cases h with
  | player name =>
    rw [resetScore]
    split
    · simp [HasScore, score?]
    · rename_i hnone
      simp [HasScore, score?, hnone]
  | entity id =>
    rintro ⟨e', he', hid, hscore⟩
    obtain ⟨e, -, rfl⟩ := List.mem_map.1 (mem_living.1 he').1
    by_cases hown : (e.id == id) = true
    · simp [hown] at hscore
    · rw [if_neg hown] at hid
      exact hown (beq_iff_eq.2 hid)

theorem hasScore_setScore {v : Int32} (hscore : (setScore m h o v).HasScore o' h') : o' = o ∨ m.HasScore o' h' := by
  by_cases ho : o' = o
  · exact .inl ho
  · refine .inr ?_
    cases h with
    | player name =>
      cases h' with
      | player name' => simpa [HasScore, score?, setScore, Ne.symm ho] using hscore
      | entity id => exact hscore
    | entity id =>
      cases h' with
      | player name => exact hscore
      | entity id' =>
        obtain ⟨e', he', rfl, hscore⟩ := hscore
        obtain ⟨he', halive⟩ := mem_living.1 he'
        obtain ⟨e, he, rfl⟩ := List.mem_map.1 he'
        refine ⟨e, mem_living.2 ⟨he, ?_⟩, ?_, ?_⟩
        · split at halive <;> exact halive
        · split <;> rfl
        · split at hscore
          · simpa [Ne.symm ho] using hscore
          · exact hscore

theorem hasScore_withoutObjective (hscore : (m.withoutObjective o).HasScore o' h') : o' ≠ o ∧ m.HasScore o' h' := by
  cases h' with
  | player name =>
    by_cases ho : o = o'
    · subst ho
      simp [HasScore, score?, withoutObjective] at hscore
    · exact ⟨Ne.symm ho, by simpa [HasScore, score?, withoutObjective, ho] using hscore⟩
  | entity id =>
    obtain ⟨e', he', rfl, hscore⟩ := hscore
    obtain ⟨he', halive⟩ := mem_living.1 he'
    obtain ⟨e, he, rfl⟩ := List.mem_map.1 he'
    by_cases hlives : e.alive = true
    · simp only [hlives, if_true, Dict.find?_erase] at hscore ⊢
      split at hscore
      · cases hscore
      · rename_i ho
        exact ⟨Ne.symm ho, e, mem_living.2 ⟨he, hlives⟩, rfl, hscore⟩
    · simp only [hlives, Bool.false_eq_true, if_false] at halive

def KeepsRegistered (m m' : Machine) : Prop := m.Registered → m'.Registered

instance : IsPreorder Machine KeepsRegistered where
  refl _ := id
  trans _ _ _ h h' := h' ∘ h

theorem registered_withObjective (m : Machine) (name : String) :
    KeepsRegistered m { m with objectives := m.objectives ++ [name] } :=
  fun hm h o hscore ↦ List.mem_append_left _ (hm h o (by cases h <;> exact hscore))

theorem registered_setScore (v : Int32) (ho : o ∈ m.objectives) : KeepsRegistered m (setScore m h o v) := by
  intro hm h' o' hscore
  have hsame : (setScore m h o v).objectives = m.objectives := by cases h <;> rfl
  rw [hsame]
  rcases hasScore_setScore hscore with rfl | hscore
  · exact ho
  · exact hm h' o' hscore

theorem allowsScores_keepsRegistered : AllowsScores KeepsRegistered where
  newObjective := registered_withObjective
  withoutObjective m name hm h o hscore := by
    obtain ⟨hne, hscore⟩ := hasScore_withoutObjective hscore
    exact List.mem_filter.2 ⟨hm h o hscore, by simpa using hne⟩
  setScore m h v _ ho := registered_setScore v ho
  resetScore m h o := (givesNone_resetScore m h o).registered

theorem allowsData_keepsRegistered : AllowsData KeepsRegistered := by
  intro m place fields
  refine GivesNone.registered ?_
  cases place with
  | storage id | block key =>
    exact ⟨List.Subset.refl _, fun _ _ hscore ↦ hscore, fun e he halive o hscore ↦ ⟨e, he, halive, rfl, hscore⟩⟩
  | entity id => exact givesNone_update id fun e ↦ ⟨rfl, rfl, fun _ hscore ↦ hscore⟩

theorem allowsEntities_keepsRegistered : AllowsEntities KeepsRegistered where
  lastEntity _ _ := id
  join m e hscores := by
    refine GivesNone.registered ⟨List.Subset.refl _, fun _ _ ↦ id, fun e' he' halive o hscore ↦ ?_⟩
    rcases List.mem_append.1 he' with he' | he'
    · exact ⟨e', he', halive, rfl, hscore⟩
    · rw [List.mem_singleton.1 he', hscores] at hscore
      cases hscore
  remove m ids := by
    refine (givesNone_map fun e ↦ ?_).registered
    split
    · exact nofun
    · exact fun halive ↦ ⟨halive, rfl, fun _ ↦ id⟩
  update m id f hf := by
    refine (givesNone_update id fun e ↦ ⟨(hf e).2.2, (hf e).1, fun o hscore ↦ ?_⟩).registered
    rwa [(hf e).2.1] at hscore

theorem allowsAll_keepsRegistered : AllowsAll KeepsRegistered where
  scores := allowsScores_keepsRegistered
  data := allowsData_keepsRegistered
  entities := allowsEntities_keepsRegistered
  chat _ _ := id
  rules _ _ _ := id

theorem allowsCounters_keepsRegistered : AllowsCounters KeepsRegistered := fun _ _ _ ↦ id

/-- The machines that come of a new one, between runs and at every moment of a run. -/
inductive Reached : Machine → Prop
  | new (setup : Setup) (maxCommands : Int) : Reached { toSetup := setup, maxCommands }
  | define {m : Machine} (h : Reached m) (path : String) (lines : List String) : Reached (m.define path lines)
  | addToTag {m : Machine} (h : Reached m) (tag : String) (paths : List String) : Reached (m.addToTag tag paths)
  | assignScore {m : Machine} (h : Reached m) (player objective : String) (v : Int32) :
      Reached (m.assignScore player objective v)
  | errand {m : Machine} (h : Reached m) (e : Errand) : Reached (e.outcome m).2
  | moment {m : Machine} (h : Reached m) (e : Errand) (n : Nat) : Reached (tick^[n] (e.start m)).machine

theorem registered_assignScore (player objective : String) (v : Int32) :
    KeepsRegistered m (m.assignScore player objective v) := by
  intro hm
  rw [Machine.assignScore]
  by_cases ho : m.objectives.contains objective = true
  · rw [if_pos ho]
    exact registered_setScore (m := m) v (List.contains_iff_mem.1 ho) hm
  · rw [if_neg ho]
    exact registered_setScore v (by simp) (registered_withObjective m objective hm)

theorem Registered.moment (hm : m.Registered) (e : Errand) (n : Nat) : (tick^[n] (e.start m)).machine.Registered := by
  induction n with
  | zero => exact hm
  | succ n ih =>
    rw [Function.iterate_succ_apply']
    exact keeps_tick allowsCounters_keepsRegistered allowsAll_keepsRegistered _ ih

theorem Registered.errand (hm : m.Registered) (e : Errand) : (e.outcome m).2.Registered := by
  cases hrunning : m.running with
  | true =>
    rw [e.outcome_of_running hrunning]
    exact hm
  | false =>
    obtain ⟨n, -, hmachine⟩ := e.reaches_outcome hrunning
    rw [← hmachine]
    exact hm.moment e n

theorem Reached.registered (hm : Reached m) : m.Registered := by
  induction hm with
  | new setup maxCommands =>
    intro h o hscore
    cases h with
    | player name => cases hscore
    | entity id =>
      obtain ⟨e, he, -⟩ := hscore
      cases he
  | define _ path lines ih => exact ih
  | addToTag _ tag paths ih => exact ih
  | assignScore _ player objective v ih => exact registered_assignScore player objective v ih
  | errand _ e ih => exact ih.errand e
  | moment _ e n ih => exact ih.moment e n

def resetScores (h : Holder) (os : List String) (m : Machine) : Machine := os.foldl (resetScore · h ·) m

theorem givesNone_resetScores (h : Holder) (os : List String) (m : Machine) :
    (resetScores h os m).objectives = m.objectives ∧
      ∀ {o h'}, (resetScores h os m).HasScore o h' → m.HasScore o h' ∧ ¬ (h' = h ∧ o ∈ os) := by
  induction os generalizing m with
  | nil => exact ⟨rfl, fun hscore ↦ ⟨hscore, by simp⟩⟩
  | cons x os ih =>
    obtain ⟨hobjectives, hscores⟩ := ih (resetScore m h x)
    refine ⟨hobjectives.trans (objectives_resetScore m h x), fun {o h'} hscore ↦ ?_⟩
    obtain ⟨hscore, hnot⟩ := hscores hscore
    refine ⟨(givesNone_resetScore m h x).hasScore hscore, ?_⟩
    rintro ⟨rfl, ho⟩
    rcases List.mem_cons.1 ho with rfl | ho
    · exact not_hasScore_resetScore m h' o hscore
    · exact hnot ⟨rfl, ho⟩

def resetAll (hs : List Holder) (m : Machine) : Machine := hs.foldl (fun m h ↦ resetScores h m.objectives m) m

theorem not_hasScore_resetAll (hm : m.Registered) (hs : List Holder) :
    ∀ {o h'}, (resetAll hs m).HasScore o h' → m.HasScore o h' ∧ h' ∉ hs := by
  induction hs generalizing m with
  | nil => exact fun hscore ↦ ⟨hscore, List.not_mem_nil⟩
  | cons h hs ih =>
    intro o h' hscore
    obtain ⟨hobjectives, hscores⟩ := givesNone_resetScores h m.objectives m
    have hm' : (resetScores h m.objectives m).Registered := by
      intro h' o hscore
      rw [hobjectives]
      exact hm h' o (hscores hscore).1
    obtain ⟨hscore, hnot⟩ := ih hm' hscore
    obtain ⟨hscore', hown⟩ := hscores hscore
    refine ⟨hscore', fun hmem ↦ ?_⟩
    rcases List.mem_cons.1 hmem with rfl | hmem
    · exact hown ⟨rfl, hm h' o hscore'⟩
    · exact hnot hmem

theorem perform_reset (call : Call) (site : Site) {actor : Actor} {target : String} {hs : List Holder}
    (hhs : holders m actor target = .ok hs) :
    perform call site ["scoreboard", "players", "reset", target] actor m =
      (.ok ⟨Int32.ofNat hs.length, !hs.isEmpty⟩, resetAll hs m) := by
  have hloop (l : List Holder) (m : Machine) :
      (forIn l PUnit.unit fun h _ ↦ do
        modify fun m ↦ m.objectives.foldl (resetScore · h ·) m
        pure (ForInStep.yield PUnit.unit) : Action PUnit) m = (.ok ⟨⟩, resetAll l m) := by
    induction l generalizing m with
    | nil => rfl
    | cons h l ih =>
      simp only [List.forIn_cons, bind_apply, modify_apply, andThen_ok, pure_apply]
      exact ih _
  have hfound : holdersOrFault site actor target m = (.ok hs, m) := by
    simp only [holdersOrFault, bind_apply, get_apply, andThen_ok, hhs, pure_apply]
  change scoreboardPlayers site actor ["reset", target] m = _
  simp only [scoreboardPlayers, bind_apply, hfound, andThen_ok, hloop, pure_apply]

theorem perform_removeObjective (call : Call) (site : Site) (actor : Actor) (o : String) (m : Machine) :
    ∃ r m', perform call site ["scoreboard", "objectives", "remove", o] actor m = (.ok r, m') ∧
      (m' = m.withoutObjective o ∨ m' = m ∧ o ∉ m.objectives) := by
  change ∃ r m', scoreboardObjectives site ["remove", o] m = (.ok r, m') ∧ _
  simp only [scoreboardObjectives, bind_apply, get_apply, andThen_ok]
  split
  · rename_i hnone
    exact ⟨_, m, rfl, .inr ⟨rfl, by simpa using hnone⟩⟩
  · exact ⟨_, m.withoutObjective o, rfl, .inl rfl⟩

/-- Scores live only in existing objectives. In every machine that comes of a new one, whatever it was asked to do
and whether that went well, and also at every moment of a run, every player and every living entity has scores
in existing objectives alone. So resetting targets without naming an objective leaves them no score at all, and
after an objective was removed nobody has a score in it. -/
theorem scores_only_in_objectives (hm : Reached m) :
    (∀ h o, m.HasScore o h → o ∈ m.objectives) ∧
    (∀ call site actor target hs, holders m actor target = .ok hs →
      ∃ r m', perform call site ["scoreboard", "players", "reset", target] actor m = (.ok r, m') ∧
        ∀ h ∈ hs, ∀ o, ¬ m'.HasScore o h) ∧
    ∀ call site actor o, ∃ r m',
      perform call site ["scoreboard", "objectives", "remove", o] actor m = (.ok r, m') ∧
        ∀ h, ¬ m'.HasScore o h := by
  have hreg := hm.registered
  refine ⟨hreg, fun call site actor target hs hhs ↦ ?_, fun call site actor o ↦ ?_⟩
  · refine ⟨_, _, perform_reset call site hhs, fun h hh o hscore ↦ ?_⟩
    exact (not_hasScore_resetAll hreg hs hscore).2 hh
  · obtain ⟨r, m', hperform, hcases⟩ := perform_removeObjective call site actor o m
    refine ⟨r, m', hperform, fun h hscore ↦ ?_⟩
    rcases hcases with rfl | ⟨rfl, ho⟩
    · exact (hasScore_withoutObjective hscore).1 rfl
    · exact ho (hreg h o hscore)

theorem Reached.commands (hm : Reached m) (commands : List String) :
    Reached (commands.foldl (fun m command ↦ (m.exec command).2) m) :=
  List.foldlRecOn commands _ hm fun _ h command _ ↦ h.errand (.exec command false)

/-- A strict machine that was asked for scores of a player and of an entity. It refused the last command. -/
def tallier : Machine :=
  ["summon marker", "scoreboard players set @e a 5", "scoreboard players set @e b 5"].foldl
    (fun m command ↦ (m.exec command).2) (Machine.assignScore { strict := true } "p" "a" 3)

theorem reached_tallier : Reached tallier := .commands (.assignScore (.new { strict := true } 65536) "p" "a" 3) _

theorem holders_tallier : holders tallier {} "@e" = .ok [.entity 1] := by
  have hids : (holders tallier {} "@e").toOption = some [.entity 1] := by decide +kernel
  generalize holders tallier {} "@e" = hs at hids
  cases hs with
  | error e => cases hids
  | ok hs => exact congrArg _ (Option.some.inj hids)

theorem scores_only_in_objectives_tallier :
    Reached tallier ∧ tallier.objectives = ["a"] ∧ tallier.HasScore "a" (.player "p") ∧ tallier.HasScore "a" (.entity 1) ∧
      ∃ r m', perform noCall {} ["scoreboard", "players", "reset", "@e"] {} tallier = (.ok r, m') ∧
        ∀ o, ¬ m'.HasScore o (.entity 1) := by
  obtain ⟨-, hreset, -⟩ := scores_only_in_objectives reached_tallier
  obtain ⟨r, m', hperform, hnone⟩ := hreset noCall {} {} "@e" _ holders_tallier
  have hentity : tallier.living.any (fun e ↦ e.id == 1 && (Dict.find? "a" e.scores).isSome) = true := by decide +kernel
  refine ⟨reached_tallier, by decide +kernel, ?_, ?_, r, m', hperform, hnone _ List.mem_cons_self⟩
  · rw [HasScore]
    decide +kernel
  · simpa only [HasScore, List.any_eq_true, Bool.and_eq_true, beq_iff_eq] using hentity

end CommandPack.Machine
