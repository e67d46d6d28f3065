import Mathlib
import CommandPack.Proofs.Testing

/-!
Commands under conditions: `execute if … run …` tests the condition and, if it holds, performs the command for the
one it was given to. Scores of players by name are set, counted and compared.
-/

namespace CommandPack.Machine

open Stateful

variable {words : List String} {call : Call} {site : Site}

def senseWord (sense : Bool) : String := if sense then "if" else "unless"

/-- What `execute` makes of the result of the command it runs. -/
def Result.settled (r : Result) : Result := ⟨if r.ok then r.value else 0, r.ok⟩

theorem chain_skip (xs ys : List String) (c : Chain) :
    chain call site xs.length (xs ++ ys) c = chain call site 0 ys c := by
  induction xs with
  | nil => rfl
  | cons x xs ih =>
    rw [List.length_cons, List.cons_append, chain.eq_def]
    exact ih

theorem filterActors_nil (sense : Bool) (words : List String) (actor : Actor) :
    filterActors site sense words actor [] = (do
      let t ← test site actor words
      return ([], t.used)) := rfl

theorem filterActors_singleton (sense : Bool) (words : List String) (actor : Actor) :
    filterActors site sense words actor [actor] = (do
      let t ← test site actor words
      return (if t.holds = sense then [actor] else [], t.used)) := by
  funext m
  simp only [filterActors, List.isEmpty_cons, Bool.false_eq_true, if_false, List.forIn_cons,
    List.forIn_nil, bind_apply]
  rcases test site actor words m with ⟨e | t, m₁⟩
  · rfl
  · by_cases ht : t.holds = sense <;> simp [ht]

theorem clause_sense (sense : Bool) (c : Chain) (words : List String) :
    c.clause site (senseWord sense) words = (do
      let (actors, used) ← filterActors site sense words c.origin c.actors
      return ({ c with actors }, used)) := by
  cases sense <;> simp [Chain.clause, senseWord]

theorem chain_test (h : IsTest words) (sense : Bool) (rest : List String) {c : Chain}
    (hc : c.actors = [c.origin] ∨ c.actors = []) :
    chain call site 0 (senseWord sense :: (words ++ rest)) c = (do
      let t ← test site c.origin words
      chain call site 0 rest { c with actors := if t.holds = sense then c.actors else [] }) := by
  have hword : senseWord sense ≠ "run" := by cases sense <;> decide
  funext m
  rw [chain.eq_def]
  simp only [hword, if_false, clause_sense]
  rcases hc with hc | hc
  · rw [hc, filterActors_singleton, h.test_append]
    simp only [bind_apply]
    rcases hm : test site c.origin words m with ⟨e | t, m₁⟩
    · rfl
    · simp only [andThen_ok, pure_apply, h.used_eq hm, chain_skip]
  · rw [hc, filterActors_nil, h.test_append]
    simp only [bind_apply]
    rcases hm : test site c.origin words m with ⟨e | t, m₁⟩
    · rfl
    · simp only [andThen_ok, pure_apply, h.used_eq hm, chain_skip, ite_self]

theorem chain_run (hw : words ≠ []) (actor : Actor) :
    chain call site 0 ("run" :: words) ⟨actor, [actor], []⟩ =
      Result.settled <$> perform call site words actor := by
  have hempty : words.isEmpty = false := by simpa using hw
  funext m
  rw [chain.eq_def]
  simp only [if_true, hempty, Bool.false_eq_true, if_false, Chain.runEach, List.forIn_cons,
    List.forIn_nil, bind_apply, map_apply, applyStores]
  rcases perform call site words actor m with ⟨e | r, m₁⟩
  · rfl
  · obtain ⟨value, ok⟩ := r
    cases ok <;> rfl

theorem chain_run_nobody (hw : words ≠ []) (actor : Actor) :
    chain call site 0 ("run" :: words) ⟨actor, [], []⟩ = pure ⟨0, false⟩ := by
  have hempty : words.isEmpty = false := by simpa using hw
  rw [chain.eq_def]
  simp only [if_true, hempty, Bool.false_eq_true, if_false]
  rfl

theorem perform_guarded {test : List String} (h : IsTest test) (sense : Bool) (hw : words ≠ []) (actor : Actor) :
    perform call site ("execute" :: senseWord sense :: (test ++ "run" :: words)) actor = (do
      let t ← Machine.test site actor test
      if t.holds = sense then Result.settled <$> perform call site words actor
      else return ⟨0, false⟩) := by
  rw [perform.eq_def]
  simp only [if_true]
  rw [chain_test h sense _ (.inl rfl)]
  congr 1
  funext t
  by_cases ht : t.holds = sense
  · simp only [ht, if_true, chain_run hw]
  · simp only [ht, if_false, chain_run_nobody hw]

theorem perform_guarded_twice {test test' : List String} (h : IsTest test) (h' : IsTest test') (sense sense' : Bool)
    (hw : words ≠ []) (actor : Actor) :
    perform call site ("execute" :: senseWord sense ::
        (test ++ senseWord sense' :: (test' ++ "run" :: words))) actor = (do
      let t ← Machine.test site actor test
      let t' ← Machine.test site actor test'
      if t.holds = sense ∧ t'.holds = sense' then Result.settled <$> perform call site words actor
      else return ⟨0, false⟩) := by
  rw [perform.eq_def]
  simp only [if_true]
  rw [chain_test h sense _ (.inl rfl)]
  congr 1
  funext t
  by_cases ht : t.holds = sense
  · simp only [ht, if_true, true_and]
    rw [chain_test h' sense' _ (.inl rfl)]
    congr 1
    funext t'
    by_cases ht' : t'.holds = sense'
    · simp only [ht', if_true, chain_run hw]
    · simp only [ht', if_false, chain_run_nobody hw]
  · simp only [ht, if_false, false_and]
    rw [chain_test h' sense' _ (.inr rfl)]
    congr 1
    funext t'
    simp only [ite_self, chain_run_nobody hw]

variable {n : String} {k : Int} {actor : Actor} {m m₁ : Machine} {p q o o' : String}

@[simp] theorem score?_setScore_player (m : Machine) (p q o o' : String) (v : Int32) :
    score? (setScore m (.player p) o v) (.player q) o' =
      if p = q ∧ o = o' then some v else score? m (.player q) o' := by
  simp only [score?, setScore, Dict.find?_insert]
  by_cases ho : o = o'
  · subst ho
    by_cases hp : p = q
    · simp [hp]
    · cases hd : Dict.find? o m.scores <;> simp [hp, Dict.find?]
  · simp [ho]

theorem holders_player (hp : isSelector p = false) : holders m actor p = .ok [.player p] := by
  simp [holders, hp]

theorem assignScores_player (hp : isSelector p = false) (hn : Decimal.readInt? 32 n = some k) (word : String)
    (f : Int32 → Int32 → Int32) :
    assignScores site actor word f [p, o, n] = (do
      useObjective site o
      let m ← get
      let v := f ((score? m (.player p) o).getD 0) (Int32.ofInt k)
      set (setScore m (.player p) o v)
      return ⟨v, true⟩) := by
  funext m
  simp only [assignScores, hn, bind_apply]
  rcases useObjective site o m with ⟨e | u, m₁⟩
  · rfl
  · simp only [andThen_ok, holdersOrFault, bind_apply, get_apply, holders_player hp, pure_apply]
    rfl

/-- The ways to give a score a number. -/
inductive Assignment where
  | set | add | remove

@[reducible] def Assignment.word : Assignment → String
  | set => "set"
  | add => "add"
  | remove => "remove"

def Assignment.apply : Assignment → Int32 → Int32 → Int32
  | set => fun _ n ↦ n
  | add => (· + ·)
  | remove => (· - ·)

theorem perform_assign (a : Assignment) (hp : isSelector p = false) (hn : Decimal.readInt? 32 n = some k) :
    perform call site ["scoreboard", "players", a.word, p, o, n] actor = (do
      useObjective site o
      let m ← get
      let v := a.apply ((score? m (.player p) o).getD 0) (Int32.ofInt k)
      set (setScore m (.player p) o v)
      return ⟨v, true⟩) := by
  cases a <;> simp only [Assignment.word, Assignment.apply, perform, simple, scoreboard, String.reduceEq, if_false,
    if_true, scoreboardPlayers, assignScores_player hp hn]

theorem perform_function {path : String} (hpath : Text.dropLead? ['#'] path.toList = none) :
    perform call site ["function", path] actor = call path site.location.function site actor := by
  simp only [perform, simple, String.reduceEq, if_false, if_true, function, hpath]

theorem test_equals (hp : isSelector p = false) {k : Int32} (hn : Range.parse? n = some ⟨some k.toInt, some k.toInt⟩) :
    test site actor ["score", p, o, "matches", n] = (do
      useObjective site o
      return ⟨5, decide (score? (← get) (.player p) o = some k)⟩) := by
  rw [test_range]
  funext m
  simp only [bind_apply, hn]
  rcases useObjective site o m with ⟨e | u, m₁⟩
  · rfl
  · simp only [andThen_ok, singleScore, holdersOrFault, bind_apply, get_apply, holders_player hp,
      pure_apply, outcome_eq_iff, Except.ok.injEq, Tested.mk.injEq, true_and, and_true]
    cases score? m₁ (.player p) o with
    | none => simp
    | some v =>
      simp only [Option.any_some, Range.holds, Option.all_some, Option.some.injEq]
      rw [← Bool.decide_and, decide_eq_decide]
      constructor
      · exact fun h ↦ Int32.toInt_inj.1 (le_antisymm h.2 h.1)
      · rintro rfl
        exact ⟨le_rfl, le_rfl⟩

end CommandPack.Machine
