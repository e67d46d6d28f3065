import Mathlib
import CommandPack.Proofs.Structured

/-!
The written commands that branches and loops are made of, and what one of them does in a run.
-/

namespace CommandPack.Machine

open Stateful Text

variable {sense sense' : Bool} {cond cond' line : String} {site : Site} {words words' ws ws' : List String}
  {actor : Actor} {v : Int32} {r : Result}

/-- A character of a name that is one word and neither a selector nor a tag nor a comment. -/
def isNameChar (c : Char) : Bool := isWordChar c && !isBlank c && c != '@' && c != '#'

def IsName (s : String) : Prop := s ≠ "" ∧ s.toList.all isNameChar = true

def scoreLine (word p o n : String) : String := join " " ["scoreboard", "players", word, p, o, n]
def callLine (path : String) : String := join " " ["function", path]

def equals (p o n : String) : String := join " " ["score", p, o, "matches", n]

def guardLine (sense : Bool) (cond line : String) : String :=
  join " " ["execute", senseWord sense, cond, "run", line]

def guardTwiceLine (sense : Bool) (cond : String) (sense' : Bool) (cond' line : String) : String :=
  join " " ["execute", senseWord sense, cond, senseWord sense', cond', "run", line]

variable {p o n path : String}

theorem IsName.isNameChar (hp : IsName p) : ∀ c ∈ p.toList, isNameChar c = true :=
  List.all_eq_true.1 hp.2

theorem IsName.isWordChar (hp : IsName p) : ∀ c ∈ p.toList, isWordChar c = true := by
  intro c hc
  have h := hp.isNameChar c hc
  simp only [Machine.isNameChar, Bool.and_eq_true] at h
  exact h.1.1.1

theorem IsName.split (hp : IsName p) : splitWords p = .ok [p] :=
  splitWords_of_isWordChar hp.1 hp.isWordChar

theorem IsName.notSelector (hp : IsName p) : isSelector p = false := by
  rcases hl : p.toList with _ | ⟨c, cs⟩
  · simp [isSelector, hl]
  · have h := hp.isNameChar c (by simp [hl])
    have hne : c ≠ '@' := by
      rintro rfl
      simp [Machine.isNameChar] at h
    unfold isSelector
    rw [hl]
    split
    · rename_i heq
      simp only [List.cons.injEq] at heq
      exact absurd heq.1 hne
    · rfl

theorem IsName.notTag (hp : IsName p) : dropLead? ['#'] p.toList = none := by
  rcases hl : p.toList with _ | ⟨c, cs⟩
  · rfl
  · have h := hp.isNameChar c (by simp [hl])
    have hne : '#' ≠ c := by
      rintro rfl
      simp [Machine.isNameChar] at h
    simp [dropLead?, hne]

theorem splitWords_scoreLine (hp : IsName p) (ho : IsName o) (hn : IsName n) {word : String}
    (hword : splitWords word = .ok [word]) :
    splitWords (scoreLine word p o n) =
      .ok ["scoreboard", "players", word, p, o, n] := by
  refine splitWords_join_words ?_
  simp only [List.forall_mem_cons, hp.split, ho.split, hn.split, hword, true_and]
  exact ⟨rfl, rfl, by simp⟩

theorem splitWords_equals (hp : IsName p) (ho : IsName o) (hn : IsName n) :
    splitWords (equals p o n) = .ok ["score", p, o, "matches", n] := by
  refine splitWords_join_words ?_
  simp only [List.forall_mem_cons, hp.split, ho.split, hn.split, true_and]
  exact ⟨rfl, rfl, by simp⟩

theorem splitWords_callLine (hp : IsName p) : splitWords (callLine p) = .ok ["function", p] := by
  refine splitWords_join_words ?_
  simp only [List.forall_mem_cons, hp.split, true_and]
  exact ⟨rfl, by simp⟩

theorem splitWords_senseWord (sense : Bool) :
    splitWords (senseWord sense) = .ok [senseWord sense] := by
  cases sense <;> rfl

theorem splitWords_guardLine (hc : splitWords cond = .ok ws) (hl : splitWords line = .ok ls) :
    splitWords (guardLine sense cond line) =
      .ok ("execute" :: senseWord sense :: (ws ++ "run" :: ls)) := by
  have h : List.Forall₂ (fun t us ↦ splitWords t = .ok us)
      ["execute", senseWord sense, cond, "run", line]
      [["execute"], [senseWord sense], ws, ["run"], ls] :=
    .cons rfl (.cons (splitWords_senseWord sense) (.cons hc (.cons rfl (.cons hl .nil))))
  simpa [guardLine] using splitWords_join h

theorem splitWords_guardTwiceLine (hc : splitWords cond = .ok ws) (hc' : splitWords cond' = .ok ws')
    (hl : splitWords line = .ok ls) :
    splitWords (guardTwiceLine sense cond sense' cond' line) =
      .ok ("execute" :: senseWord sense :: (ws ++ senseWord sense' :: (ws' ++ "run" :: ls))) := by
  have h : List.Forall₂ (fun t us ↦ splitWords t = .ok us)
      ["execute", senseWord sense, cond, senseWord sense', cond', "run", line]
      [["execute"], [senseWord sense], ws, [senseWord sense'], ws', ["run"], ls] :=
    .cons rfl (.cons (splitWords_senseWord sense) (.cons hc
      (.cons (splitWords_senseWord sense') (.cons hc' (.cons rfl (.cons hl .nil))))))
  simpa [guardTwiceLine] using splitWords_join h

def Quiet (m m' : Machine) : Prop := m' = { m with count := m'.count, log := m'.log }

instance : IsPreorder Machine Quiet where
  refl _ := rfl
  trans m₁ m₂ m₃ h h' := by
    unfold Quiet at h h' ⊢
    rw [h', h]

theorem allowsCounters_quiet : AllowsCounters Quiet := fun _ _ _ ↦ rfl

variable {h : Hidden} {m m' m₀ m₁ m₂ : Machine} {d : Nat} {l : String} {ls : List String}

theorem Quiet.sameBut (hm : Quiet m m') : SameBut h m m' := by
  rw [hm]
  exact ⟨rfl, fun _ _ _ ↦ rfl⟩

theorem Quiet.score? (hm : Quiet m m') (holder : Holder) (o : String) :
    score? m' holder o = score? m holder o := by
  rw [hm]
  rfl

theorem Quiet.objectives (hm : Quiet m m') : m'.objectives = m.objectives := by
  rw [hm]

theorem Quiet.toSetup (hm : Quiet m m') : m'.toSetup = m.toSetup := by
  rw [hm]

/-- With `d` levels of calls left, a call of a function takes one machine to another. -/
def Calls (d : Nat) (path : String) (m m' : Machine) : Prop :=
  ∃ caller site r, callFunction d path caller site {} m = (.ok r, m')

/-- Commands of a function that has `d` levels of calls left take one machine to another. -/
def Runs (d : Nat) (ls : List String) (m m' : Machine) : Prop :=
  ∃ path frames line, runLines (callFunction d) path frames {} line ls m = (.ok (), m')

/-- One such command takes one machine to another. -/
def Does (d : Nat) (l : String) (m m' : Machine) : Prop :=
  ∃ site m₀ r, Quiet m m₀ ∧ obey (callFunction d) site {} l m₀ = (.ok r, m')

theorem step_eq_ok {call : Call} (hm : step call site actor m = (.ok r, m')) :
    ∃ m₀, Quiet m m₀ ∧ obey call site actor site.location.command m₀ = (.ok r, m') := by
  simp only [step, bind_eq_ok] at hm
  obtain ⟨u, m₁, hcount, u', m₂, hwatch, hm⟩ := hm
  have h₁ := (keeps_countCommand allowsCounters_quiet site).of_eq hcount
  have h₂ := (keeps_watchCommand allowsCounters_quiet site).of_eq hwatch
  exact ⟨m₂, trans_of Quiet h₁ h₂, hm⟩

@[simp] theorem runs_nil : Runs d [] m m' ↔ m = m' := by
  constructor
  · rintro ⟨path, frames, line, h⟩
    exact congrArg Prod.snd h
  · rintro rfl
    exact ⟨"", [], 0, rfl⟩

theorem Runs.cons (hm : Runs d (l :: ls) m m') : ∃ m₁, Does d l m m₁ ∧ Runs d ls m₁ m' := by
  obtain ⟨path, frames, line, hm⟩ := hm
  simp only [runLines, bind_eq_ok] at hm
  obtain ⟨r, m₁, hstep, hm⟩ := hm
  obtain ⟨m₀, hquiet, hobey⟩ := step_eq_ok hstep
  exact ⟨m₁, ⟨_, m₀, r, hquiet, hobey⟩, path, frames, line + 1, hm⟩

theorem Calls.runs (hm : Calls d path m m') :
    ∃ d' lines m₁ m₂, d = d' + 1 ∧ Dict.find? path m.functions = some lines ∧ Quiet m m₁ ∧
      Runs d' lines m₁ m₂ ∧ Quiet m₂ m' := by
  obtain ⟨caller, site, r, hm⟩ := hm
  rw [callFunction.eq_def] at hm
  simp only [bind_apply, get_apply, andThen_ok] at hm
  cases hf : Dict.find? path m.functions with
  | none => simp [hf, fault] at hm
  | some lines =>
    cases d with
    | zero => simp [hf, fault] at hm
    | succ d' =>
      simp only [hf, bind_eq_ok] at hm
      obtain ⟨u, m₁, hcall, u', m₂, hrun, u'', m₃, hreturn, hm⟩ := hm
      have h₁ := (keeps_watchCall allowsCounters_quiet _ path caller).of_eq hcall
      have h₃ := (keeps_watchReturn allowsCounters_quiet site path).of_eq hreturn
      obtain rfl : m₃ = m' := congrArg Prod.snd hm
      exact ⟨d', lines, m₁, m₂, rfl, rfl, h₁, ⟨path, site.frames, 1, hrun⟩, h₃⟩

def kept (h : Hidden) (m : Machine) (p : String) : Option Int32 := score? m (.player p) h.objective

theorem Quiet.kept_eq (hm : Quiet m m') (q : String) : kept h m' q = kept h m q := hm.score? _ _

/-- The hidden score of one player became `v`, and the objective was used. -/
structure Marks (h : Hidden) (p : String) (v : Int32) (m m' : Machine) : Prop where
  used : ∃ m₁, useObjective {} h.objective m = (.ok (), m₁) ∧ SameBut h m₁ m'
  here : kept h m' p = some v
  elsewhere (q : String) : q ≠ p → kept h m' q = kept h m q

theorem Marks.mem_objectives (hm : Marks h p v m m') : h.objective ∈ m'.objectives := by
  obtain ⟨m₁, hused, hsame⟩ := hm.used
  rw [← hsame.objectives]
  exact mem_of_useObjective hused

theorem Marks.sameBut (hm : Marks h p v m m') (ho : h.objective ∈ m.objectives) : SameBut h m m' := by
  obtain ⟨m₁, hused, hsame⟩ := hm.used
  rw [useObjective_of_mem {} ho] at hused
  obtain rfl : m = m₁ := congrArg Prod.snd hused
  exact hsame

theorem Marks.used_alike {n : Machine} (hm : Marks h p v m m') (hmn : SameBut h m n) :
    ∃ n₁, useObjective {} h.objective n = (.ok (), n₁) ∧ SameBut h m' n₁ := by
  obtain ⟨m₁, hused, hsame⟩ := hm.used
  obtain ⟨n₁, husedN, hsameN⟩ := (alike_useObjective h {} {} h.objective).ok hmn hused
  exact ⟨n₁, husedN, hsame.symm.trans hsameN⟩

theorem marks_of_setScore {f : Option Int32 → Int32}
    (hp : p ∈ h.players)
    (hm : (do
      useObjective site h.objective
      let m ← get
      let v := f (score? m (.player p) h.objective)
      set (setScore m (.player p) h.objective v)
      return ⟨v, true⟩ : Action Result) m = (.ok r, m')) :
    Marks h p (f (kept h m p)) m m' := by
  simp only [bind_eq_ok, get_apply, set_apply, pure_apply, outcome_eq_iff, Except.ok.injEq] at hm
  obtain ⟨u, m₁, hused, m₂, m₃, ⟨rfl, rfl⟩, u', m₄, ⟨_, rfl⟩, _, rfl⟩ := hm
  have hscores : m₁.scores = m.scores := by
    rw [(useObjective_objectives hused).2]
  have hkept (q : String) : kept h m₁ q = kept h m q := by
    simp [kept, score?, hscores]
  refine ⟨⟨m₁, useObjective_eq_ok.2 (useObjective_eq_ok.1 hused), ⟨rfl, fun q o' hq ↦ ?_⟩⟩, ?_, ?_⟩
  · rw [score?_setScore_player, if_neg]
    rintro ⟨rfl, rfl⟩
    exact hq hp rfl
  · rw [← hkept p]
    simp [kept]
  · intro q hq
    rw [← hkept q]
    simp [kept, Ne.symm hq]

theorem Marks.of_quiet (hq : Quiet m m₀) (hm : Marks h p v m₀ m') : Marks h p v m m' := by
  obtain ⟨m₁, hused, hsame⟩ := hm.used_alike hq.sameBut.symm
  exact ⟨⟨m₁, hused, hsame.symm⟩, hm.here,
    fun q hne ↦ (hm.elsewhere q hne).trans (hq.kept_eq q)⟩

section Effects

variable {k : Int} (hp : IsName p) (hmem : p ∈ h.players) (ho : IsName h.objective)

theorem obey_of_split {call : Call} (hl : splitWords l = .ok words) :
    obey call site actor l = perform call site words actor := by
  simp only [obey, hl]

include hp hmem ho

theorem marks_of_assign (a : Assignment) {call : Call} (hn : IsName n) (hk : Decimal.readInt? 32 n = some k)
    (hm : obey call site {} (scoreLine a.word p h.objective n) m = (.ok r, m')) :
    Marks h p (a.apply ((kept h m p).getD 0) (Int32.ofInt k)) m m' := by
  rw [obey_of_split (splitWords_scoreLine hp ho hn (by cases a <;> rfl)), perform_assign a hp.notSelector hk] at hm
  exact marks_of_setScore (f := fun v ↦ a.apply (v.getD 0) (Int32.ofInt k)) hmem hm

theorem Does.assign (a : Assignment) (hn : IsName n) (hk : Decimal.readInt? 32 n = some k)
    (hm : Does d (scoreLine a.word p h.objective n) m m') :
    Marks h p (a.apply ((kept h m p).getD 0) (Int32.ofInt k)) m m' := by
  obtain ⟨site, m₀, r, hquiet, hm⟩ := hm
  rw [← hquiet.kept_eq]
  exact (marks_of_assign hp hmem ho a hn hk hm).of_quiet hquiet

end Effects

theorem obey_call {call : Call} (hpath : IsName path) :
    obey call site actor (callLine path) = call path site.location.function site actor := by
  rw [obey_of_split (splitWords_callLine hpath), perform_function hpath.notTag]

theorem Does.call (hpath : IsName path) (hm : Does d (callLine path) m m') :
    ∃ m₀, Quiet m m₀ ∧ Calls d path m₀ m' := by
  obtain ⟨site, m₀, r, hquiet, hm⟩ := hm
  rw [obey_call hpath] at hm
  exact ⟨m₀, hquiet, _, _, r, hm⟩

theorem obey_guardLine {call : Call} (hc : splitWords cond = .ok words) (ht : IsTest words)
    (hl : splitWords l = .ok words') (hne : words' ≠ []) :
    obey call site actor (guardLine sense cond l) = (do
      let t ← test site actor words
      if t.holds = sense then Result.settled <$> obey call site actor l
      else return ⟨0, false⟩) := by
  rw [obey_of_split (splitWords_guardLine hc hl), perform_guarded ht sense hne, obey_of_split hl]

theorem Does.guard (hc : splitWords cond = .ok words) (ht : IsTest words) (hl : splitWords l = .ok words')
    (hne : words' ≠ []) (hm : Does d (guardLine sense cond l) m m') :
    ∃ site m₀ m₁ t, Quiet m m₀ ∧ test site {} words m₀ = (.ok t, m₁) ∧
      ((t.holds = sense ∧ ∃ r, obey (callFunction d) site {} l m₁ = (.ok r, m')) ∨
        (t.holds ≠ sense ∧ m' = m₁)) := by
  obtain ⟨site, m₀, r, hquiet, hm⟩ := hm
  rw [obey_guardLine hc ht hl hne, bind_eq_ok] at hm
  obtain ⟨t, m₁, htest, hm⟩ := hm
  refine ⟨site, m₀, m₁, t, hquiet, htest, ?_⟩
  by_cases hs : t.holds = sense
  · rw [if_pos hs, map_eq_pure_bind, bind_eq_ok] at hm
    obtain ⟨r', m₂, hobey, hm⟩ := hm
    obtain rfl : m₂ = m' := congrArg Prod.snd hm
    exact .inl ⟨hs, r', hobey⟩
  · rw [if_neg hs] at hm
    exact .inr ⟨hs, (congrArg Prod.snd hm).symm⟩

theorem test_kept (site : Site) (actor : Actor) {k : Int32} (hp : IsName p)
    (hk : Range.parse? n = some ⟨some k.toInt, some k.toInt⟩) (ho : h.objective ∈ m.objectives) :
    test site actor ["score", p, h.objective, "matches", n] m =
      (.ok ⟨5, decide (kept h m p = some k)⟩, m) := by
  rw [test_equals hp.notSelector hk]
  simp only [bind_apply, useObjective_of_mem site ho, andThen_ok, get_apply, pure_apply, kept]
  rfl

theorem Does.guard_kept {k : Int32} (hp : IsName p) (hobj : IsName h.objective) (hn : IsName n)
    (hk : Range.parse? n = some ⟨some k.toInt, some k.toInt⟩) (hpath : IsName path) (ho : h.objective ∈ m.objectives)
    (hm : Does d (guardLine sense (equals p h.objective n) (callLine path)) m m') :
    ∃ m₀, Quiet m m₀ ∧ ((decide (kept h m p = some k) = sense ∧ Calls d path m₀ m') ∨
      (decide (kept h m p = some k) ≠ sense ∧ m' = m₀)) := by
  obtain ⟨site, m₀, m₁, t, hquiet, ht, hm⟩ := hm.guard (splitWords_equals hp hobj hn) (.range ..)
    (splitWords_callLine hpath) (by simp)
  rw [test_kept site {} hp hk (hquiet.objectives ▸ ho)] at ht
  simp only [outcome_eq_iff, Except.ok.injEq] at ht
  obtain ⟨rfl, rfl⟩ := ht
  simp only [hquiet.kept_eq] at hm
  refine ⟨m₀, hquiet, ?_⟩
  rcases hm with ⟨hs, r, hobey⟩ | ⟨hs, rfl⟩
  · rw [obey_call hpath] at hobey
    exact .inl ⟨hs, _, _, r, hobey⟩
  · exact .inr ⟨hs, rfl⟩

theorem obey_guardTwiceLine {call : Call} (hc : splitWords cond = .ok ws) (ht : IsTest ws)
    (hc' : splitWords cond' = .ok ws') (ht' : IsTest ws') (hl : splitWords l = .ok words) (hne : words ≠ []) :
    obey call site actor (guardTwiceLine sense cond sense' cond' l) = (do
      let t ← test site actor ws
      let t' ← test site actor ws'
      if t.holds = sense ∧ t'.holds = sense' then Result.settled <$> obey call site actor l
      else return ⟨0, false⟩) := by
  rw [obey_of_split (splitWords_guardTwiceLine hc hc' hl), perform_guarded_twice ht ht' sense sense' hne,
    obey_of_split hl]

theorem Does.guard_twice (hc : splitWords cond = .ok ws) (ht : IsTest ws) (hc' : splitWords cond' = .ok ws')
    (ht' : IsTest ws') (hl : splitWords l = .ok words) (hne : words ≠ [])
    (hm : Does d (guardTwiceLine sense cond sense' cond' l) m m') :
    ∃ site m₀ m₁ m₂ t t', Quiet m m₀ ∧ test site {} ws m₀ = (.ok t, m₁) ∧
      test site {} ws' m₁ = (.ok t', m₂) ∧
      (((t.holds = sense ∧ t'.holds = sense') ∧ ∃ r, obey (callFunction d) site {} l m₂ = (.ok r, m')) ∨
        (¬ (t.holds = sense ∧ t'.holds = sense') ∧ m' = m₂)) := by
  obtain ⟨site, m₀, r, hquiet, hm⟩ := hm
  rw [obey_guardTwiceLine hc ht hc' ht' hl hne, bind_eq_ok] at hm
  obtain ⟨t, m₁, htest, hm⟩ := hm
  rw [bind_eq_ok] at hm
  obtain ⟨t', m₂, htest', hm⟩ := hm
  refine ⟨site, m₀, m₁, m₂, t, t', hquiet, htest, htest', ?_⟩
  by_cases hs : t.holds = sense ∧ t'.holds = sense'
  · rw [if_pos hs, map_eq_pure_bind, bind_eq_ok] at hm
    obtain ⟨r', m₃, hobey, hm⟩ := hm
    obtain rfl : m₃ = m' := congrArg Prod.snd hm
    exact .inl ⟨hs, r', hobey⟩
  · rw [if_neg hs] at hm
    exact .inr ⟨hs, (congrArg Prod.snd hm).symm⟩

theorem splitWords_equals_zero (hp : IsName p) (hobj : IsName h.objective) :
    splitWords (equals p h.objective "0") = .ok ["score", p, h.objective, "matches", "0"] :=
  splitWords_equals hp hobj ⟨by decide, rfl⟩

/-- A call under the conditions that one does not hold and that a hidden score is zero. -/
theorem Does.guard_exit (hc : splitWords cond = .ok words) (ht : IsTest words) (hp : IsName p)
    (hobj : IsName h.objective) (hpath : IsName path) (ho : h.objective ∈ m.objectives)
    (hm : Does d (guardTwiceLine false cond true (equals p h.objective "0") (callLine path)) m m') :
    ∃ site m₀ m₁ t, Quiet m m₀ ∧ test site {} words m₀ = (.ok t, m₁) ∧
      (((t.holds = false ∧ kept h m p = some 0) ∧ Calls d path m₁ m') ∨
        (¬ (t.holds = false ∧ kept h m p = some 0) ∧ m' = m₁)) := by
  obtain ⟨site, m₀, m₁, m₂, t, t', hquiet, htest, htest', hm⟩ := hm.guard_twice hc ht
    (splitWords_equals_zero hp hobj) (.range ..) (splitWords_callLine hpath) (by simp)
  have hgrown := (keeps_test site {} (Grown.newObjective (h := h)) Grown.newData words).of_eq htest
  have ho₁ : h.objective ∈ m₁.objectives := hgrown.objectives.subset (hquiet.objectives ▸ ho)
  have hkept : kept h m₁ p = kept h m p := by
    have hscores : m₁.scores = m₀.scores := by
      have h₁ := test_scores site {} words m₀
      rwa [htest] at h₁
    rw [← hquiet.kept_eq]
    simp [kept, score?, hscores]
  rw [test_kept site {} (k := 0) hp (by rfl) ho₁, hkept] at htest'
  simp only [outcome_eq_iff, Except.ok.injEq] at htest'
  obtain ⟨rfl, rfl⟩ := htest'
  simp only [decide_eq_true_eq] at hm
  refine ⟨site, m₀, m₁, t, hquiet, htest, ?_⟩
  rcases hm with ⟨hs, r, hobey⟩ | ⟨hs, rfl⟩
  · rw [obey_call hpath] at hobey
    exact .inl ⟨hs, _, _, r, hobey⟩
  · exact .inr ⟨hs, rfl⟩

end CommandPack.Machine
