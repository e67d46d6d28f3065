import Mathlib
import CommandPack.Proofs.Lowering

/-!
Lowered bodies end when the bodies do, if nothing but the depth of calls limits a run and there is
enough of it. On the way back from a loop its condition is tested once more, so on strict machines
commands must not remove objectives.
-/

namespace CommandPack.Machine

open Stateful

variable {site : Site} {depth : Nat} {ls' words : List String} {actor : Actor} {sense : Bool} {cond : String}
  {h : Hidden} {fs : Dict (List String)} {m m' m₁ m₂ n n' n₁ : Machine} {d d' : Nat} {own own' : Set String}
  {k : Option String} {r : Bool} {plan : Plan} {p l path : String} {ls : List String} {lasts : Bool}

/-- The command limit and the objective stay, and a strict machine still has its objectives if they are to last. -/
structure Steady (lasts : Bool) (h : Hidden) (m m' : Machine) : Prop where
  limit : m'.maxCommands = m.maxCommands
  strict : m'.strict = m.strict
  objectives : lasts = true → m.strict = true → m.objectives ⊆ m'.objectives
  own : h.objective ∈ m.objectives → h.objective ∈ m'.objectives

theorem Grown.steady (hm : Grown h m m') : Steady lasts h m m' where
  limit := (congrArg (fun n : Machine ↦ n.maxCommands) hm.core.symm :)
  strict := (congrArg (fun n : Machine ↦ n.strict) hm.core.symm :)
  objectives _ _ := hm.objectives.subset
  own ho := hm.objectives.subset ho

theorem Steady.trans (hm : Steady lasts h m m₁) (hm' : Steady lasts h m₁ m') : Steady lasts h m m' where
  limit := hm'.limit.trans hm.limit
  strict := hm'.strict.trans hm.strict
  objectives hl hs := List.Subset.trans (hm.objectives hl hs) (hm'.objectives hl (hm.strict.trans hs))
  own ho := hm'.own (hm.own ho)

theorem lasting_steady : Lasting h (Steady lasts h) := ⟨Grown.steady, Steady.trans, Steady.own⟩

theorem SameBut.steady (hm : SameBut h m m') : Steady lasts h m m' := lasting_steady.same hm

theorem functions_of_test {t : Tested} (hm : test site actor words m = (.ok t, m')) : m'.functions = m.functions := by
  rw [(keeps_test site actor allowsAll_sameSetup.scores.newObjective allowsAll_sameSetup.data.newData words).of_eq hm]

/-- Nothing but the depth of calls limits the run of a machine, and objectives last if it is strict. -/
structure Calm (lasts : Bool) (m : Machine) : Prop where
  budget : m.maxCommands ≤ 0
  observer : m.observer = none
  cancelled : m.cancelled = false
  strict : m.strict = true → lasts = true

/-- What a run is watched and limited by, apart from its budget, is the same. -/
def SameRun (m m' : Machine) : Prop := m'.toSetup = m.toSetup ∧ m'.cancelled = m.cancelled

instance : IsPreorder Machine SameRun where
  refl _ := ⟨rfl, rfl⟩
  trans _ _ _ h h' := ⟨h'.1.trans h.1, h'.2.trans h.2⟩

theorem allowsAll_sameRun : AllowsAll SameRun where
  scores := .of_all fun _ _ _ _ ↦ ⟨rfl, rfl⟩
  data := .of_all fun _ _ _ _ ↦ ⟨rfl, rfl⟩
  entities := .of_all fun _ _ _ ↦ ⟨rfl, rfl⟩
  chat _ _ := ⟨rfl, rfl⟩
  rules _ _ _ := ⟨rfl, rfl⟩

theorem allowsCounters_sameRun : AllowsCounters SameRun := fun _ _ _ ↦ ⟨rfl, rfl⟩

theorem Calm.of_steady (hm : Calm lasts m) (hs : Steady lasts h m m') (hr : SameRun m m') : Calm lasts m' where
  budget := hs.limit ▸ hm.budget
  observer := by rw [hr.1, hm.observer]
  cancelled := hr.2.trans hm.cancelled
  strict hs' := hm.strict (hs.strict.symm.trans hs')

theorem Calm.of_quiet (hm : Calm lasts m) (hq : Quiet m m') : Calm lasts m' := by
  rw [hq]
  exact ⟨hm.budget, hm.observer, hm.cancelled, hm.strict⟩

theorem sameRun_of_call (hm : Calls d path m m') : SameRun m m' := by
  obtain ⟨caller, site, r, hm⟩ := hm
  exact (keeps_callFunction allowsCounters_sameRun allowsAll_sameRun d path caller site {}).of_eq hm

theorem Quiet.sameRun (hm : Quiet m m') : SameRun m m' := by
  rw [hm]
  exact ⟨rfl, rfl⟩

theorem Does.sameRun (hm : Does d l m m') : SameRun m m' := by
  obtain ⟨site, m₀, r, hquiet, hobey⟩ := hm
  exact trans_of SameRun hquiet.sameRun ((keeps_obey (keeps_callFunction allowsCounters_sameRun allowsAll_sameRun d)
    allowsAll_sameRun site {} l).of_eq hobey)

theorem Does.calm (hdoes : Does d l m m') (hs : Steady lasts h m m') (hm : Calm lasts m) : Calm lasts m' :=
  hm.of_steady hs hdoes.sameRun

theorem Calls.calm (hcall : Calls d path m m') (hs : Steady lasts h m m') (hm : Calm lasts m) : Calm lasts m' :=
  hm.of_steady hs (sameRun_of_call hcall)

theorem calm_of_test {t : Tested} (hm : test site actor words m = (.ok t, m')) (hcalm : Calm lasts m) :
    Calm lasts m' := by
  refine hcalm.of_steady (grown_of_test (h := ⟨∅, ""⟩) hm).steady ?_
  exact (keeps_test site actor allowsAll_sameRun.scores.newObjective allowsAll_sameRun.data.newData words).of_eq hm

def Works (d : Nat) (l : String) (m : Machine) : Prop :=
  ∀ site, ∃ r m', obey (callFunction d) site {} l m = (.ok r, m')

def Goes (d : Nat) (ls : List String) (m : Machine) : Prop :=
  ∀ path frames line, ∃ m', runLines (callFunction d) path frames {} line ls m = (.ok (), m')

def Enterable (d : Nat) (path : String) (m : Machine) : Prop :=
  ∀ caller site, ∃ r m', callFunction d path caller site {} m = (.ok r, m')

theorem Calm.step_eq (hm : Calm lasts m) (call : Call) (site : Site) (actor : Actor) :
    step call site actor m =
      obey call site actor site.location.command { m with count := m.count + 1 } := by
  have hcount : countOutcome site m = .ok () := by
    simp [countOutcome, hm.cancelled, hm.budget.not_gt]
  simp only [step, countCommand_eq, hcount, watchCommand, bind_apply, andThen_ok, get_apply, pure_apply, hm.observer]
  rfl

theorem goes_nil (d : Nat) (m : Machine) : Goes d [] m := fun _ _ _ ↦ ⟨m, rfl⟩

theorem Goes.cons (hm : Calm lasts m) (hl : ∀ m₀, Quiet m m₀ → Works d l m₀)
    (hls : ∀ m₁, Does d l m m₁ → Goes d ls m₁) : Goes d (l :: ls) m := by
  intro path frames line
  have hquiet : Quiet m { m with count := m.count + 1 } := rfl
  obtain ⟨r, m₁, hobey⟩ := hl _ hquiet ⟨⟨path, line, l⟩, ⟨path, line⟩ :: frames⟩
  obtain ⟨m', hrun⟩ := hls m₁ ⟨_, _, r, hquiet, hobey⟩ path frames (line + 1)
  refine ⟨m', ?_⟩
  simp only [runLines, bind_apply, hm.step_eq, hobey, andThen_ok, hrun]

theorem Goes.enterable (hm : Calm lasts m) (hpath : Dict.find? path m.functions = some ls) (hls : Goes d ls m) :
    Enterable (d + 1) path m := by
  intro caller site
  obtain ⟨m', hrun⟩ := hls path site.frames 1
  have hsame := (keeps_runLines allowsCounters_sameRun allowsAll_sameRun
    (keeps_callFunction allowsCounters_sameRun allowsAll_sameRun d) path site.frames {} 1 ls).of_eq hrun
  have hobserver : m'.observer = none := by rw [hsame.1, hm.observer]
  refine ⟨⟨Int32.ofNat ls.length, true⟩, m', ?_⟩
  rw [callFunction.eq_def]
  simp only [bind_apply, get_apply, andThen_ok, hpath, watchCall, hm.observer, pure_apply, hrun,
    watchReturn, hobserver]

theorem Enterable.works (hpath : IsName path) (hm : Enterable d path m) : Works d (callLine path) m := by
  intro site
  rw [obey_call hpath]
  exact hm _ site

/-- A command under a condition works if the condition can be tested and the command works where it
is done. -/
theorem works_guard {words' : List String} (hc : splitWords cond = .ok words) (ht : IsTest words)
    (hl : splitWords l = .ok words') (hne : words' ≠ []) (htest : ∀ site, ∃ t m₁, test site {} words m = (.ok t, m₁))
    (hworks : ∀ site t m₁, test site {} words m = (.ok t, m₁) → t.holds = sense → Works d l m₁) :
    Works d (guardLine sense cond l) m := by
  intro site
  obtain ⟨t, m₁, htest⟩ := htest site
  rw [obey_guardLine hc ht hl hne]
  by_cases hs : t.holds = sense
  · obtain ⟨r, m', hobey⟩ := hworks site t m₁ htest hs site
    exact ⟨_, m', bind_eq_ok.2 ⟨t, m₁, htest, by rw [if_pos hs, map_apply, hobey]; rfl⟩⟩
  · exact ⟨_, m₁, bind_eq_ok.2 ⟨t, m₁, htest, by rw [if_neg hs]; rfl⟩⟩

section Hidden

variable {o : String} (hobj : IsName h.objective) (hp : IsName p)

include hobj hp in
theorem works_guard_kept (hpath : IsName path) (ho : h.objective ∈ m.objectives)
    (hcall : decide (kept h m p = some 1) = sense → Enterable d path m) :
    Works d (guardLine sense (equals p h.objective "1") (callLine path)) m := by
  have htest (site : Site) := test_kept (h := h) site {} (n := "1") (k := 1) hp (by rfl) ho
  refine works_guard (splitWords_equals hp hobj isName_one) (.range ..) (splitWords_callLine hpath)
    (by simp) (fun site ↦ ⟨_, _, htest site⟩) ?_
  intro site t m₁ hm hs
  rw [htest site] at hm
  simp only [outcome_eq_iff, Except.ok.injEq] at hm
  obtain ⟨rfl, rfl⟩ := hm
  exact (hcall hs).works hpath

include hobj hp in
theorem works_exit (hc : IsCondition h cond) (hpath : IsName path)
    (ho : h.objective ∈ m.objectives)
    (htest : ∀ site, ∃ t m₁, test site {} (wordsOf cond) m = (.ok t, m₁))
    (hcall : kept h m p = some 0 → ∀ site t m₁, test site {} (wordsOf cond) m = (.ok t, m₁) →
      t.holds = false → Enterable d path m₁) :
    Works d (guardTwiceLine false cond true (equals p h.objective "0") (callLine path)) m := by
  intro site
  obtain ⟨t, m₁, htest⟩ := htest site
  have ho₁ : h.objective ∈ m₁.objectives := (grown_of_test (h := h) htest).objectives.subset ho
  have htest' := test_kept (h := h) site {} (n := "0") (k := 0) hp (by rfl) ho₁
  rw [kept_of_test htest] at htest'
  rw [obey_guardTwiceLine hc.split hc.isTest (splitWords_equals_zero hp hobj) (.range ..)
    (splitWords_callLine hpath) (by simp)]
  by_cases hs : t.holds = false ∧ decide (kept h m p = some 0) = true
  · obtain ⟨r, m', hobey⟩ := (hcall (of_decide_eq_true hs.2) site t m₁ htest hs.1).works hpath site
    exact ⟨_, m', bind_eq_ok.2 ⟨t, m₁, htest, bind_eq_ok.2 ⟨_, m₁, htest', by
      rw [if_pos hs, map_apply, hobey]; rfl⟩⟩⟩
  · exact ⟨_, m₁, bind_eq_ok.2 ⟨t, m₁, htest, bind_eq_ok.2 ⟨_, m₁, htest', by rw [if_neg hs]; rfl⟩⟩⟩

variable {k : Int} {n : String}

include hp in
theorem works_assign (a : Assignment) (ho : IsName o) (hn : IsName n) (hk : Decimal.readInt? 32 n = some k)
    (hu : Usable o m) : Works d (scoreLine a.word p o n) m := by
  intro site
  rw [obey_of_split (splitWords_scoreLine hp ho hn (by cases a <;> rfl)), perform_assign a hp.notSelector hk]
  obtain ⟨m₁, hused⟩ := hu.use site
  exact ⟨_, _, bind_eq_ok.2 ⟨(), m₁, hused, rfl⟩⟩

end Hidden

/-- From `s` to `high` levels of calls left, the continuation can be resumed after a body that ended
in `n`. -/
def Ready (lasts : Bool) (h : Hidden) (s high : Nat) (k : Option String) (own : Set String)
    (m n : Machine) : Prop :=
  ∀ path ∈ k, ∀ d, s ≤ d → d ≤ high → ∀ m₁, Calm lasts m₁ → SameBut h m₁ n → KeptOff h own m m₁ →
    Enterable d path m₁

theorem Ready.mono {s high : Nat} (hk : Ready lasts h s d k own m n) (hd : high ≤ d) (hsub : own' ⊆ own)
    (hoff : KeptOff h own m m') : Ready lasts h s high k own' m' n :=
  fun path hpath d' hlow hhigh m₁ hcalm hsame hoff' ↦
    hk path hpath d' hlow (hhigh.trans hd) m₁ hcalm hsame (hoff.trans (hoff'.mono hsub))

/-- Commands that start like `n` go on to their end like `n'`, with `depth` more levels of calls than
what is resumed there. -/
def FinishesWithin (lasts : Bool) (h : Hidden) (fs : Dict (List String)) (again : Bool) (k : Option String)
    (own : Set String) (ls : List String) (depth : Nat) (n : Machine) (e : Exit) (n' : Machine) : Prop :=
  ∀ ⦃s d m⦄, depth + s ≤ d → d + 1 < 2 ^ 32 → m.functions = fs → SameBut h m n → Calm lasts m →
    Resumable h (Steady lasts h) fs again d k own m → (e = .done → Ready lasts h s d k own m n') → Goes d ls m

/-- The same of calls of a block. -/
def EntersWithin (lasts : Bool) (h : Hidden) (fs : Dict (List String)) (again : Bool) (k : Option String)
    (own : Set String) (path : String) (depth : Nat) (n : Machine) (e : Exit) (n' : Machine) : Prop :=
  ∀ ⦃s d m⦄, depth + s ≤ d → d < 2 ^ 32 → m.functions = fs → SameBut h m n → Calm lasts m →
    Resumable h (Steady lasts h) fs again d k own m → (e = .done → Ready lasts h s d k own m n') → Enterable d path m

theorem FinishesWithin.call {e : Exit} (hwithin : FinishesWithin lasts h fs r k own ls depth n e n')
    (hpath : Dict.find? path fs = some ls) : EntersWithin lasts h fs r k own path (depth + 1) n e n' := by
  intro s d m hd hbound hfs hmn hm hres hready
  obtain ⟨d, rfl⟩ : ∃ d', d = d' + 1 := ⟨d - 1, by omega⟩
  refine (hwithin (s := s) (by omega) hbound hfs hmn hm (hres.mono (Nat.le_succ d) subset_rfl (.refl _ _))
    fun he ↦ ?_).enterable hm (hfs ▸ hpath)
  exact (hready he).mono (Nat.le_succ d) subset_rfl (.refl _ _)

def Finishes (lasts : Bool) (h : Hidden) (fs : Dict (List String)) (again : Bool) (k : Option String)
    (plan : Plan) (own : Set String) (ls : List String) : Prop :=
  ∀ ⦃n e n'⦄, Exec h.objective plan n e n' → ∃ depth, FinishesWithin lasts h fs again k own ls depth n e n'

theorem Finishes.done (hk : ∀ path ∈ k, IsName path) :
    Finishes lasts h fs r k .done ∅ (k.toList.map callLine) := by
  intro n e n' hexec
  cases hexec
  refine ⟨0, fun s d m hd hbound hfs hmn hm hres hready ↦ ?_⟩
  cases k with
  | none => exact goes_nil d m
  | some path =>
    refine .cons hm (fun m₀ hquiet ↦ ?_) fun m₁ _ ↦ goes_nil d m₁
    refine (hready rfl path rfl d (by omega) le_rfl m₀ (hm.of_quiet hquiet) ?_ ?_).works (hk path rfl)
    · exact hquiet.sameBut.symm.trans hmn
    · exact hquiet.keptOff

theorem Finishes.leave : Finishes lasts h fs r k .leave ∅ [] :=
  fun _ _ _ _ ↦ ⟨0, fun _ d m _ _ _ _ _ _ _ ↦ goes_nil d m⟩

theorem Alone.works (hl : Alone h l) (hm : SameBut h m n) (hobeys : Obeys l n n') : Works d l m := by
  obtain ⟨r, hobeys⟩ := hobeys
  intro site
  obtain ⟨m', hm', -⟩ := (hl.alike noCall (callFunction d) {} site).ok hm.symm hobeys
  exact ⟨r, m', hm'⟩

theorem Finishes.act {lines : List String} (hnext : Finishes lasts h fs r k plan own ls)
    (hlines : ∀ l ∈ lines, Alone h l) (hsteady : ∀ l ∈ lines, ∀ m m', Obeys l m m' → Steady lasts h m m') :
    Finishes lasts h fs r k (.act lines plan) own (lines ++ ls) := by
  intro n e n' hexec
  induction lines generalizing n with
  | nil =>
    cases hexec with
    | skip hexec => exact hnext hexec
  | cons l lines ih =>
    cases hexec with
    | @act _ _ _ _ n₁ _ _ hobeys hexec =>
    have hl := hlines l List.mem_cons_self
    obtain ⟨depth, hgoes⟩ := ih (fun l hl ↦ hlines l (List.mem_cons_of_mem _ hl))
      (fun l hl ↦ hsteady l (List.mem_cons_of_mem _ hl)) hexec
    refine ⟨depth, fun s d m hd hbound hfs hmn hm hres hready ↦ ?_⟩
    refine .cons hm (fun m₀ hquiet ↦ hl.works (hquiet.sameBut.symm.trans hmn) hobeys) fun m₁ hdoes ↦ ?_
    obtain ⟨⟨n₂, hobeys₂, hsame⟩, hoff⟩ := hdoes.alone hl hmn own
    have hsame₁ : SameBut h m₁ n₁ :=
      hsame.trans (hobeys₂.same hl hobeys (SameBut.refl h n))
    have hs : Steady lasts h m m₁ := hmn.steady.trans
      ((hsteady l List.mem_cons_self n n₁ hobeys).trans hsame₁.symm.steady)
    exact hgoes hd hbound (hdoes.functions.trans hfs) hsame₁ (hdoes.calm hs hm)
      (hres.mono le_rfl subset_rfl hoff) fun he ↦ (hready he).mono le_rfl subset_rfl hoff

theorem EntersWithin.ready {e : Exit} {s : Nat} {whole : Set String} {j : String}
    (hnext : EntersWithin lasts h fs r k own' j depth n e n') (hfs : n.functions = fs) (hbound : d < 2 ^ 32)
    (hres : Resumable h (Steady lasts h) fs r d k whole m) (hready : e = .done → Ready lasts h s d k whole m n')
    (hown' : own' ⊆ whole) (hown : own ⊆ whole) : Ready lasts h (depth + s) d (some j) own m n := by
  intro path hpath d' hlow hhigh m₁ hcalm hsame hoff
  cases hpath
  have hoff := hoff.mono hown
  exact hnext (s := s) (by omega) (by omega) (hsame.functions.trans hfs) hsame hcalm (hres.mono hhigh hown' hoff)
    fun he ↦ (hready he).mono hhigh hown' hoff

section Branches

variable {c p x y e j : String} {b : Bool} (hobj : IsName h.objective) (hc : IsCondition h c)
  (hp : IsName p) (hmem : p ∈ h.players) (hx : IsName x) (hy : IsName y)

theorem SameBut.usable {o : String} (hm : SameBut h m m') (ho : Usable o m) : Usable o m' := by
  rwa [Usable, ← hm.strict, ← hm.objectives]

include hobj hc hp hmem hx hy in
theorem branch_goes (htells : Tells h.objective c n b n₁) (hmn : SameBut h m n) (hm : Calm lasts m)
    (hfs : m.functions = fs)
    (hyes : b = true → ∀ m₁, Calm lasts m₁ → m₁.functions = fs → SameBut h m₁ n₁ → KeptOff h {p} m m₁ →
      kept h m₁ p = some 1 → h.objective ∈ m₁.objectives → Enterable d x m₁ ∧
        ∀ m₂, Calls d x m₁ m₂ → kept h m₂ p = some 1 ∧ Steady lasts h m₁ m₂)
    (hno : b = false → ∀ m₁, Calm lasts m₁ → m₁.functions = fs → SameBut h m₁ n₁ → KeptOff h {p} m m₁ →
      Enterable d y m₁) : Goes d (branchLines h.objective p c x y) m := by
  obtain ⟨nu, t, hused, htest, hb⟩ := id htells
  have husable : Usable h.objective m := hmn.symm.usable (usable_of_use hused)
  refine .cons hm (fun m₀ hquiet ↦ ?_) fun ma hreset ↦ ?_
  · exact works_assign hp .set hobj isName_zero rfl ((hquiet.sameBut (h := h)).usable husable)
  have hmarks := hreset.assign hp hmem hobj .set isName_zero rfl
  have hsamea : SameBut h ma nu := by
    obtain ⟨nu', husedn, hsamen⟩ := hmarks.used_alike hmn
    rw [hused] at husedn
    obtain rfl : nu = nu' := congrArg Prod.snd husedn
    exact hsamen
  refine .cons (hreset.calm hmarks.grown.steady hm) (fun m₀ hquiet ↦ ?_) ?_
  · refine works_guard hc.split hc.isTest (splitWords_scoreLine hp hobj isName_one rfl) (by simp) ?_ ?_
    · intro site
      obtain ⟨m₁, htest, -⟩ := (hc.isTest.alike hc.overlooks {} site {}).ok
        (hsamea.symm.trans hquiet.sameBut) htest
      exact ⟨t, m₁, htest⟩
    · intro site t m₁ htest _
      refine works_assign hp .set hobj isName_one rfl (.inr ?_)
      exact (grown_of_test (h := h) htest).objectives.subset (hquiet.objectives ▸ hmarks.mem_objectives)
  intro mb hassign
  obtain ⟨b', n₁', htells', hsame, hoff, hkept⟩ := branch_tested hobj hc hp hmem hmn hreset hassign
  obtain ⟨rfl, hsame'⟩ := htells.same hc htells' (SameBut.refl h n)
  have hsameb : SameBut h mb n₁ := hsame.trans hsame'.symm
  have hcalmb : Calm lasts mb := by
    refine hm.of_steady (h := h) ?_ (trans_of SameRun hreset.sameRun hassign.sameRun)
    exact hmn.steady.trans ((htells.lasts lasting_steady).trans hsameb.symm.steady)
  have hfsb : mb.functions = fs := by
    rw [hsameb.functions, htells.sameSetup, ← hmn.functions, hfs]
  have hob : h.objective ∈ mb.objectives := by
    rw [hsameb.objectives]
    exact htells.mem_objectives
  have hside {m₀ : Machine} (hquiet : Quiet mb m₀) : Calm lasts m₀ ∧ m₀.functions = fs ∧ SameBut h m₀ n₁ ∧
      KeptOff h {p} m m₀ ∧ h.objective ∈ m₀.objectives ∧ kept h m₀ p = some (if b then 1 else 0) :=
    ⟨hcalmb.of_quiet hquiet, hquiet.toSetup ▸ hfsb, hquiet.sameBut.symm.trans hsameb,
      hoff.trans hquiet.keptOff, hquiet.objectives ▸ hob, (hquiet.kept_eq p).trans hkept⟩
  cases b with
  | true =>
    refine .cons hcalmb (fun m₀ hquiet ↦ ?_) fun mc henter ↦ ?_
    · obtain ⟨hcalm, hfs₀, hsame₀, hoff₀, ho₀, hkept₀⟩ := hside hquiet
      exact works_guard_kept hobj hp hx ho₀ fun _ ↦ (hyes rfl m₀ hcalm hfs₀ hsame₀ hoff₀ hkept₀ ho₀).1
    · obtain ⟨m₀, hquiet, ⟨-, hcall⟩ | ⟨hne, -⟩⟩ := henter.guard_kept (k := 1) hp hobj isName_one
        (by rfl) hx hob
      · obtain ⟨hcalm, hfs₀, hsame₀, hoff₀, ho₀, hkept₀⟩ := hside hquiet
        obtain ⟨hone, hs⟩ := (hyes rfl m₀ hcalm hfs₀ hsame₀ hoff₀ hkept₀ ho₀).2 mc hcall
        refine .cons (hcall.calm hs hcalm) (fun m₁ hquiet₁ ↦ ?_) fun m₁ _ ↦ goes_nil d m₁
        refine works_guard_kept hobj hp hy (hquiet₁.objectives ▸ hs.own ho₀) fun hne ↦ ?_
        simp [hquiet₁.kept_eq, hone] at hne
      · simp [hkept] at hne
  | false =>
    refine .cons hcalmb (fun m₀ hquiet ↦ ?_) fun mc henter ↦ ?_
    · obtain ⟨hcalm, hfs₀, hsame₀, hoff₀, ho₀, hkept₀⟩ := hside hquiet
      refine works_guard_kept hobj hp hx ho₀ fun hone ↦ ?_
      rw [hkept₀] at hone
      exact absurd hone (by decide)
    · obtain ⟨m₀, hquiet, ⟨hone, -⟩ | ⟨-, rfl⟩⟩ := henter.guard_kept (k := 1) hp hobj isName_one
        (by rfl) hx hob
      · rw [hkept] at hone
        exact absurd hone (by decide)
      · refine .cons (hcalmb.of_quiet hquiet) (fun m₁ hquiet₁ ↦ ?_) fun m₁ _ ↦ goes_nil d m₁
        obtain ⟨hcalm, hfs₁, hsame₁, hoff₁, ho₁, -⟩ := hside (trans_of Quiet hquiet hquiet₁)
        exact works_guard_kept hobj hp hy ho₁ fun _ ↦ hno rfl m₁ hcalm hfs₁ hsame₁ hoff₁

include hobj hp hmem in
/-- The side of a branch that is taken: it can be entered, and afterwards the outcome of the test is as
before. -/
theorem enter_finishes {yes : Plan} {s : Nat} {exit : Exit}
    (hyes : Realizes h (Steady lasts h) fs r (some j) yes own ls) (hplan : yes.Lasts h (Steady lasts h))
    (hwithin : FinishesWithin lasts h fs r (some j) own ls depth n exit n') (hentry : Dict.find? e fs = some ls)
    (henter : Enters fs h.objective r p e x) (hfresh : p ∉ own) (hfs : m.functions = fs) (hm : Calm lasts m)
    (hmn : SameBut h m n) (hd : depth + s + 2 ≤ d) (hbound : d < 2 ^ 32)
    (hk : Resumable h (Steady lasts h) fs r d (some j) (insert p own) m) (hone : kept h m p = some 1)
    (ho : h.objective ∈ m.objectives) (hready : exit = .done → Ready lasts h s d (some j) own m n') :
    Enterable d x m ∧ ∀ m₁, Calls d x m m₁ → kept h m₁ p = some 1 ∧ Steady lasts h m m₁ := by
  have hsub : own ⊆ insert p own := Set.subset_insert p own
  refine ⟨?_, fun m₁ hcall ↦
    (enter hobj hp hmem lasting_steady hyes hplan hentry henter hfresh hfs hmn hbound hk hone ho hcall).2⟩
  cases r with
  | false =>
    obtain rfl : x = e := henter
    exact hwithin.call hentry (s := s) (by omega) hbound hfs hmn hm (hk.mono le_rfl hsub (.refl _ _)) hready
  | true =>
    obtain ⟨hthrough, hname⟩ : Dict.find? x fs = some [callLine e, scoreLine "set" p h.objective "1"] ∧
      IsName e := henter
    obtain ⟨d, rfl⟩ : ∃ d', d = d' + 1 := ⟨d - 1, by omega⟩
    have hk₀ {m₀ : Machine} (hquiet : Quiet m m₀) := hk.mono (Nat.le_succ d) hsub hquiet.keptOff
    refine Goes.enterable hm (hfs ▸ hthrough) (.cons hm (fun m₀ hquiet ↦ Enterable.works hname ?_) fun m₁ hdoes ↦ ?_)
    · exact hwithin.call hentry (s := s) (by omega) (by omega) (hquiet.toSetup ▸ hfs) (hquiet.sameBut.symm.trans hmn)
        (hm.of_quiet hquiet) (hk₀ hquiet) fun he ↦ (hready he).mono (Nat.le_succ d) subset_rfl hquiet.keptOff
    · obtain ⟨m₀, hquiet, hcall⟩ := hdoes.call hname
      have hmn₀ := hquiet.sameBut.symm.trans hmn
      have hout := hyes.call hentry (hquiet.toSetup ▸ hfs) hmn₀ (by omega) (hk₀ hquiet) hcall
      have hs : Steady lasts h m m₁ := by
        refine hout.lasts lasting_steady (hk₀ hquiet) (fun e n₁ hn ↦ ?_) ho fun e n₁ hn ↦ hmn.steady.trans (hplan hn)
        rw [hn.sameSetup, ← hfs, hmn.functions]
      refine .cons (hdoes.calm hs hm) (fun m₂ hquiet₂ ↦ ?_) fun m₂ _ ↦ goes_nil _ m₂
      exact works_assign hp .set hobj isName_one readInt?_one (.inr (hquiet₂.objectives ▸ hs.own ho))

include hobj hc hp hmem hx hy in
/-- A branch, given that its other side can be entered. -/
theorem Finishes.branch {yes no next : Plan} {own₂ : Set String}
    (hyesPlan : yes.Lasts h (Steady lasts h)) (hnextPlan : next.Lasts h (Steady lasts h))
    (henter : Enters fs h.objective r p e x) (hentry : Dict.find? e fs = some ls) (hnextFind : Dict.find? j fs = some ls')
    (hyes : Realizes h (Steady lasts h) fs r (some j) yes own ls) (hnext : Realizes h (Steady lasts h) fs r k next own' ls')
    (hyesEnds : Finishes lasts h fs r (some j) yes own ls)
    (hnoEnds : ∀ ⦃n e n'⦄, Exec h.objective no n e n' → ∃ depth, EntersWithin lasts h fs r (some j) own₂ y depth n e n')
    (hnextEnds : Finishes lasts h fs r k next own' ls') (hfresh : p ∉ own) (hfresh' : p ∉ own')
    (hdisjoint : Disjoint own own') (hdisjoint₂ : Disjoint own₂ own') :
    Finishes lasts h fs r k (.ifElse c yes no next) (insert p (own ∪ own₂ ∪ own')) (branchLines h.objective p c x y) := by
  intro n exit n' hexec
  have hsub : own ⊆ insert p (own ∪ own₂ ∪ own') := fun q hq ↦ .inr (.inl (.inl hq))
  have hsub₂ : own₂ ⊆ insert p (own ∪ own₂ ∪ own') := fun q hq ↦ .inr (.inl (.inr hq))
  have hsub' : own' ⊆ insert p (own ∪ own₂ ∪ own') := fun q hq ↦ .inr (.inr hq)
  have hsingle : ({p} : Set String) ⊆ insert p (own ∪ own₂ ∪ own') := by simp
  have hresume {d : Nat} {m m₁ : Machine} {side : Set String} (hd : d + 1 < 2 ^ 32)
      (hres : Resumable h (Steady lasts h) fs r d k (insert p (own ∪ own₂ ∪ own')) m) (hoff : KeptOff h {p} m m₁)
      (hside : side ⊆ insert p (own ∪ own₂ ∪ own')) (hdisjoint : Disjoint side own') :
      Resumable h (Steady lasts h) fs r d (some j) side m₁ :=
    hnext.resumable lasting_steady hnextPlan hnextFind (by omega) hres (hoff.mono hsingle) hsub' hside hdisjoint
  -- either side, with `s` levels left for the block behind the branch
  have hside {b : Bool} {n₁ n₂ : Machine} {exit' : Exit} (htells : Tells h.objective c n b n₁)
      (hside : Exec h.objective (bif b then yes else no) n₁ exit' n₂) :
      ∃ depth, ∀ ⦃s d m⦄, depth + s ≤ d → d + 1 < 2 ^ 32 → m.functions = fs → SameBut h m n → Calm lasts m →
        Resumable h (Steady lasts h) fs r d k (insert p (own ∪ own₂ ∪ own')) m →
        (exit' = .done → Ready lasts h s d (some j) (insert p (own ∪ own₂ ∪ own')) m n₂) →
        Goes d (branchLines h.objective p c x y) m := by
    cases b with
    | true =>
      obtain ⟨depth, hwithin⟩ := hyesEnds hside
      refine ⟨depth + 2, fun s d m hd hbound hfs hmn hm hres hready ↦ ?_⟩
      refine branch_goes hobj hc hp hmem hx hy htells hmn hm hfs (fun _ m₁ hcalm hfs₁ hsame hoff hone ho ↦ ?_) (by simp)
      exact enter_finishes hobj hp hmem hyes hyesPlan hwithin hentry henter hfresh hfs₁ hcalm hsame (s := s) (by omega)
        (by omega) (hresume hbound hres hoff (Set.insert_subset_insert fun q hq ↦ .inl (.inl hq))
          (Set.disjoint_insert_left.2 ⟨hfresh', hdisjoint⟩)) hone ho
        fun he ↦ (hready he).mono le_rfl hsub (hoff.mono hsingle)
    | false =>
      obtain ⟨depth, hwithin⟩ := hnoEnds hside
      refine ⟨depth, fun s d m hd hbound hfs hmn hm hres hready ↦ ?_⟩
      refine branch_goes hobj hc hp hmem hx hy htells hmn hm hfs (by simp) fun _ m₁ hcalm hfs₁ hsame hoff ↦ ?_
      exact hwithin hd (by omega) hfs₁ hsame hcalm (hresume hbound hres hoff hsub₂ hdisjoint₂)
        fun he ↦ (hready he).mono le_rfl hsub₂ (hoff.mono hsingle)
  cases hexec with
  | ifElse htells hside' hnext' =>
    obtain ⟨depth₁, hgoes⟩ := hside htells hside'
    obtain ⟨depth₂, hwithin₂⟩ := hnextEnds hnext'
    refine ⟨depth₁ + depth₂ + 1, fun s d m hd hbound hfs hmn hm hres hready ↦ ?_⟩
    refine hgoes (s := depth₂ + 1 + s) (by omega) hbound hfs hmn hm hres fun _ ↦ ?_
    refine (hwithin₂.call hnextFind).ready ?_ (by omega) hres hready hsub' subset_rfl
    rw [hside'.sameSetup, htells.sameSetup, ← hmn.functions, hfs]
  | ifElseLeft htells hside' =>
    obtain ⟨depth, hgoes⟩ := hside htells hside'
    exact ⟨depth, fun s d m hd hbound hfs hmn hm hres _ ↦ hgoes (s := s) hd hbound hfs hmn hm hres (by simp)⟩

end Branches

section Loops

variable {c q e x j : String} {i s : Nat} {exit : Exit} (hobj : IsName h.objective)
  (hc : IsCondition h c) (hq : IsName q) (hmem : q ∈ h.players) (he : IsName e) (hx : IsName x)
  (hj : IsName j)

include hobj hc hq hmem hj in
theorem tail_goes (hi : 1 ≤ i) (hbound : i < 2 ^ 32) (hm : Calm lasts m) (ho : h.objective ∈ m.objectives)
    (hcount : kept h m q = some (Int32.ofNat i))
    (htest : ∀ m₁, SameBut h m m₁ → ∀ site, ∃ t m₂, test site {} (wordsOf c) m₁ = (.ok t, m₂))
    (hcall : i = 1 → ∀ m₁ m₂ site t, SameBut h m m₁ → KeptOff h {q} m m₁ → Calm lasts m₁ →
      test site {} (wordsOf c) m₁ = (.ok t, m₂) → t.holds = false → Enterable d j m₂) :
    Goes d [scoreLine "remove" q h.objective "1",
      guardTwiceLine false c true (equals q h.objective "0") (callLine j)] m := by
  refine .cons hm (fun m₀ hquiet ↦ ?_) fun m₁ hdown ↦ ?_
  · exact works_assign hq .remove hobj isName_one readInt?_one (.inr (hquiet.objectives ▸ ho))
  obtain ⟨hsame, hcount₁, hoff⟩ := hdown.count_down hobj hq hmem hi ho hcount
  have hcalm : Calm lasts _ := hdown.calm hsame.steady hm
  refine .cons hcalm (fun m₀ hquiet ↦ ?_) fun m₁ _ ↦ goes_nil d m₁
  have hsame₀ := hsame.trans hquiet.sameBut
  refine works_exit hobj hq hc hj (hsame₀.objectives ▸ ho) (htest m₀ hsame₀) fun hzero site t m₂ ht hf ↦ ?_
  rw [hquiet.kept_eq, hcount₁, Option.some.injEq, ofNat_eq_zero (by omega)] at hzero
  exact hcall (by omega) m₀ m₂ site t hsame₀ (hoff.trans hquiet.keptOff) (hcalm.of_quiet hquiet) ht hf

variable {body : Plan} (hplan : body.Spares h) (hlasts : body.Lasts h (Steady lasts h))
  (hloop : (Plan.loop c body .done).Lasts h (Steady lasts h)) (hfresh : q ∉ own)
  (hbody : Realizes h (Steady lasts h) fs true (some x) body own ls)
  (hentry : Dict.find? e fs = some (scoreLine "add" q h.objective "1" :: ls))
  (hcheck : Dict.find? x fs = some (checkLines h.objective q c e j))

include hobj hc hq hmem he hj hlasts hloop hfresh hbody hentry hcheck

include hplan in
theorem check_goes (hexec : Exec h.objective (.loop c body .done) n exit n') (hi : 1 ≤ i)
    (hbound : i + d + 1 < 2 ^ 32) (hs : s ≤ d) (hfs : m.functions = fs) (hmn : SameBut h m n)
    (hm : Calm lasts m) (hcount : kept h m q = some (Int32.ofNat i)) (ho : h.objective ∈ m.objectives)
    (hready : i = 1 → exit = .done → Ready lasts h s d (some j) (insert q own) m n')
    (hworks : ∀ m₀, Quiet m m₀ → Works d (guardLine true c (callLine e)) m₀) :
    Goes d (checkLines h.objective q c e j) m := by
  have hplan' : (Plan.loop c body .done).Spares h := ⟨hc, hplan, trivial⟩
  refine .cons hm hworks fun mb hround ↦ ?_
  rcases round_does hobj hc hq hmem he lasting_steady hlasts hloop hfresh hbody hentry
    (fun d' _ ↦ circles hobj hc hq hmem he hj lasting_steady hlasts hloop hfresh hbody hentry hcheck d') hfs hmn hi (by omega)
    hcount ho hround with ⟨n₂, hexec₂, hsame, hcountb, hoff⟩ | ⟨n₂, hexec₂, hgrown, hcountb, hoff⟩
  · obtain ⟨rfl, hsame₂⟩ := hexec.same hplan' hexec₂ (SameBut.refl h n)
    have hcalmb : Calm lasts mb := hround.calm (hmn.steady.trans ((hloop hexec₂).trans hsame.symm.steady)) hm
    obtain ⟨n₀, n₃, t, -, htest, hfalse⟩ := hexec₂.loop_tells
    have htest {m₁ : Machine} (hsame₁ : SameBut h mb m₁) (site : Site) :
        ∃ m₂, test site {} (wordsOf c) m₁ = (.ok t, m₂) ∧ SameBut h n₂ m₂ :=
      (hc.isTest.alike hc.overlooks {} site {}).ok (hsame.symm.trans hsame₁) (hc.isTest.again htest)
    refine tail_goes hobj hc hq hmem hj hi (by omega) hcalmb ?_ hcountb (fun m₁ hsame₁ site ↦ ?_) ?_
    · rw [hsame.objectives]
      exact (hloop hexec₂).own (hmn.objectives ▸ ho)
    · obtain ⟨m₂, htest, -⟩ := htest hsame₁ site
      exact ⟨t, m₂, htest⟩
    · intro hone m₁ m₂ site t' hsame₁ hoff₁ hcalm₁ htest₁ _
      obtain ⟨m₃, htest₂, hsame₃⟩ := htest hsame₁ site
      rw [htest₁] at htest₂
      obtain rfl : m₂ = m₃ := congrArg Prod.snd htest₂
      refine hready hone rfl j rfl d hs le_rfl m₂ (calm_of_test htest₁ hcalm₁) ?_ fun p hp hne ↦ ?_
      · exact (hsame₂.trans hsame₃).symm
      · rw [kept_of_test htest₁, hoff₁ p hp fun h ↦ hne (.inl h), hoff p hp hne]
  · obtain ⟨rfl, -⟩ := hexec.same hplan' hexec₂ (SameBut.refl h n)
    have hcalmb : Calm lasts mb := hround.calm (hmn.steady.trans ((hloop hexec₂).trans hgrown.steady)) hm
    obtain ⟨n₁, htells, hrest⟩ := hexec₂.loop_held
    -- the condition is tested once more, in a state where the body left it
    obtain ⟨site₀, m₀, mt, t, hquiet, htest, -⟩ := hround.guard hc.split hc.isTest (splitWords_callLine he) (by simp)
    obtain ⟨n₃, htestN, hsame₃⟩ := (hc.isTest.alike hc.overlooks site₀ {} {}).ok
      (hquiet.sameBut.symm.trans hmn) htest
    have htells' : Tells h.objective c n t.holds n₃ :=
      ⟨n, t, useObjective_of_mem {} (hmn.objectives ▸ ho), htestN, rfl⟩
    obtain ⟨htrue, hsame⟩ := htells'.same hc htells (SameBut.refl h n)
    have hst : Steady lasts h mt mb := by
      refine (hsame₃.trans hsame).steady.trans (.trans ?_ hgrown.steady)
      rcases hrest with hround | ⟨n₄, hround, hrest⟩
      · exact hlasts hround
      · exact (hlasts hround).trans (hloop hrest)
    refine tail_goes hobj hc hq hmem hj (by omega) (by omega) hcalmb ?_ hcountb (fun m₁ hsame₁ site ↦ ?_)
      (by omega)
    · exact hgrown.objectives.subset ((hloop hexec₂).own (hmn.objectives ▸ ho))
    · refine hc.isTest.retest htest htrue (fun o ho ↦ hsame₁.usable ?_) site
      by_cases hstrict : mt.strict = true
      · have hcalm := calm_of_test htest (hm.of_quiet hquiet)
        exact .inr (hst.objectives (hcalm.strict hstrict) hstrict ho)
      · exact .inl (hst.strict.trans (by simpa using hstrict))

theorem round_enterable (hwithin : FinishesWithin lasts h fs true (some x) own ls depth n exit n')
    (hd : depth + s ≤ d) (hi : 1 ≤ i) (hbound : i + d + 2 < 2 ^ 32) (hfs : m.functions = fs) (hmn : SameBut h m n)
    (hm : Calm lasts m) (hcount : kept h m q = some (Int32.ofNat i)) (ho : h.objective ∈ m.objectives)
    (hready : exit = .done → ∀ m₁, kept h m₁ q = some (Int32.ofNat (i + 1)) → Ready lasts h s d (some x) own m₁ n') :
    Enterable (d + 1) e m := by
  refine Goes.enterable hm (hfs ▸ hentry) (.cons hm (fun m₀ hquiet ↦ ?_) fun m₁ hup ↦ ?_)
  · exact works_assign hq .add hobj isName_one readInt?_one (.inr (hquiet.objectives ▸ ho))
  obtain ⟨hsame, hcount₁, -⟩ := hup.count_up hobj hq hmem ho hcount
  refine hwithin hd (by omega) (hsame.functions ▸ hfs) (hsame.symm.trans hmn)
    (hup.calm hsame.steady hm) ?_ fun he ↦ hready he m₁ hcount₁
  exact Circles.resumable hmem lasting_steady hloop hfresh
    (fun d' _ ↦ circles hobj hc hq hmem he hj lasting_steady hlasts hloop hfresh hbody hentry hcheck d') (by omega)
    (by omega) hcount₁

omit hobj hq hmem hj hlasts hloop hfresh hbody hentry hcheck in
theorem round_works {b : Bool} (htells : Tells h.objective c n b n₁) (hmn : SameBut h m n) (hm : Calm lasts m)
    (ho : h.objective ∈ m.objectives)
    (hcall : b = true → ∀ m₁, Calm lasts m₁ → m₁.functions = m.functions → SameBut h m₁ n₁ →
      kept h m₁ q = kept h m q → h.objective ∈ m₁.objectives → Enterable d e m₁) :
    Works d (guardLine true c (callLine e)) m := by
  obtain ⟨nu, t, hused, htest, rfl⟩ := id htells
  rw [useObjective_of_mem {} (hmn.objectives ▸ ho)] at hused
  obtain rfl : n = nu := congrArg Prod.snd hused
  have htest (site : Site) := (hc.isTest.alike hc.overlooks {} site {}).ok hmn.symm htest
  refine works_guard hc.split hc.isTest (splitWords_callLine he) (by simp) (fun site ↦ ?_) ?_
  · obtain ⟨m₁, htest, -⟩ := htest site
    exact ⟨t, m₁, htest⟩
  · intro site t' m₁ htest' hholds
    obtain ⟨m₂, htest₂, hsame⟩ := htest site
    rw [htest'] at htest₂
    simp only [outcome_eq_iff, Except.ok.injEq] at htest₂
    obtain ⟨rfl, rfl⟩ := htest₂
    refine (hcall hholds m₁ (calm_of_test htest' hm) (functions_of_test htest') hsame.symm
      (kept_of_test htest' q) ?_).works he
    exact (grown_of_test (h := h) htest').objectives.subset ho

include hplan in
theorem check_enterable (hends : Finishes lasts h fs true (some x) body own ls)
    (hexec : Exec h.objective (.loop c body .done) n exit n') :
    ∃ depth, ∀ ⦃i s d m⦄, 1 ≤ i → i + d < 2 ^ 32 → depth + s ≤ d → m.functions = fs → SameBut h m n →
      Calm lasts m → kept h m q = some (Int32.ofNat i) → h.objective ∈ m.objectives →
      (i = 1 → exit = .done → Ready lasts h s d (some j) (insert q own) m n') → Enterable d x m := by
  -- it is enough that the first command of the test works
  have henough {n : Machine} (hexec : Exec h.objective (.loop c body .done) n exit n') {i s d : Nat}
      {m : Machine} (hi : 1 ≤ i) (hbound : i + (d + 1) < 2 ^ 32) (hs : s ≤ d) (hfs : m.functions = fs)
      (hmn : SameBut h m n) (hm : Calm lasts m) (hcount : kept h m q = some (Int32.ofNat i))
      (ho : h.objective ∈ m.objectives)
      (hready : i = 1 → exit = .done → Ready lasts h s (d + 1) (some j) (insert q own) m n')
      (hworks : ∀ m₀, Quiet m m₀ → Works d (guardLine true c (callLine e)) m₀) :
      Enterable (d + 1) x m := by
    refine Goes.enterable hm (hfs ▸ hcheck) ?_
    exact check_goes hobj hc hq hmem he hj hplan hlasts hloop hfresh hbody hentry hcheck hexec hi
      (by omega) hs hfs hmn hm hcount ho
      (fun hi he ↦ (hready hi he).mono (Nat.le_succ d) subset_rfl (.refl _ _)) hworks
  generalize hp : Plan.loop c body .done = plan at hexec
  induction hexec with
  | @loopEnd _ _ _ n n₁ exit n' htells hend _ =>
    cases hp
    refine ⟨1, fun i s d m hi hbound hd hfs hmn hm hcount ho hready ↦ ?_⟩
    obtain ⟨d, rfl⟩ : ∃ d', d = d' + 1 := ⟨d - 1, by omega⟩
    refine henough (.loopEnd htells hend) hi hbound (by omega) hfs hmn hm hcount ho hready
      fun m₀ hquiet ↦ ?_
    exact round_works (q := q) hc he htells (hquiet.sameBut.symm.trans hmn) (hm.of_quiet hquiet)
      (hquiet.objectives ▸ ho) (by simp)
  | @loopRound _ _ _ n n₁ n₂ exit n' htells hround hrest _ ih =>
    cases hp
    obtain ⟨depth₁, hwithin⟩ := hends hround
    obtain ⟨depth₂, hcalls⟩ := ih henough rfl
    refine ⟨depth₁ + depth₂ + 2, fun i s d m hi hbound hd hfs hmn hm hcount ho hready ↦ ?_⟩
    obtain ⟨d, rfl⟩ : ∃ d', d = d' + 1 + 1 := ⟨d - 2, by omega⟩
    refine henough (.loopRound htells hround hrest) hi hbound (by omega) hfs hmn hm hcount ho hready
      fun m₀ hquiet ↦ ?_
    refine round_works (q := q) hc he htells (hquiet.sameBut.symm.trans hmn) (hm.of_quiet hquiet)
      (hquiet.objectives ▸ ho) fun _ m₁ hcalm hfs₁ hsame hkept ho₁ ↦ ?_
    have hfs₁ : m₁.functions = fs := by rw [hfs₁, hquiet.toSetup, hfs]
    have hcount₁ : kept h m₁ q = some (Int32.ofNat i) := by rw [hkept, hquiet.kept_eq, hcount]
    refine round_enterable hobj hc hq hmem he hj hlasts hloop hfresh hbody hentry hcheck hwithin
      (s := depth₂ + s) (by omega) hi (by omega) hfs₁ hsame hcalm hcount₁ ho₁
      fun _ m₂ hcount₂ ↦ ?_
    -- the rest of the rounds start with the counter one higher
    intro path hpath d' hlow hhigh m₃ hcalm₃ hsame₃ hoff₃
    cases hpath
    have hcount₃ : kept h m₃ q = some (Int32.ofNat (i + 1)) := by rw [hoff₃ q hmem hfresh, hcount₂]
    refine hcalls (i := i + 1) (s := s) (by omega) (by omega) hlow ?_ hsame₃ hcalm₃ hcount₃ ?_
      (by omega)
    · rw [hsame₃.functions, hround.sameSetup, ← hsame.functions, hfs₁]
    · rw [hsame₃.objectives]
      exact (hlasts hround).own htells.mem_objectives
  | @loopLeft _ _ _ n n₁ n' htells hround _ =>
    cases hp
    obtain ⟨depth, hwithin⟩ := hends hround
    refine ⟨depth + 2, fun i s d m hi hbound hd hfs hmn hm hcount ho hready ↦ ?_⟩
    obtain ⟨d, rfl⟩ : ∃ d', d = d' + 1 + 1 := ⟨d - 2, by omega⟩
    refine henough (.loopLeft htells hround) hi hbound (by omega) hfs hmn hm hcount ho hready
      fun m₀ hquiet ↦ ?_
    refine round_works (q := q) hc he htells (hquiet.sameBut.symm.trans hmn) (hm.of_quiet hquiet)
      (hquiet.objectives ▸ ho) fun _ m₁ hcalm hfs₁ hsame hkept ho₁ ↦ ?_
    have hfs₁ : m₁.functions = fs := by rw [hfs₁, hquiet.toSetup, hfs]
    have hcount₁ : kept h m₁ q = some (Int32.ofNat i) := by rw [hkept, hquiet.kept_eq, hcount]
    exact round_enterable hobj hc hq hmem he hj hlasts hloop hfresh hbody hentry hcheck hwithin
      (s := 0) (by omega) hi (by omega) hfs₁ hsame hcalm hcount₁ ho₁ (by simp)
  | _ => cases hp

include hplan hx in
theorem Finishes.loop {next : Plan} (hnextFind : Dict.find? j fs = some ls')
    (hends : Finishes lasts h fs true (some x) body own ls) (hnextEnds : Finishes lasts h fs r k next own' ls') :
    Finishes lasts h fs r k (.loop c body next) (insert q (own ∪ own'))
      [scoreLine "set" q h.objective "1", callLine x] := by
  intro n exit n' hexec
  have hsub : insert q own ⊆ insert q (own ∪ own') := Set.insert_subset_insert Set.subset_union_left
  have hsub' : own' ⊆ insert q (own ∪ own') := fun p hp ↦ .inr (.inr hp)
  -- the rounds alone, with `s` levels left for the block behind the loop
  have hrounds {exit' : Exit} {n₁ : Machine} (hexec : Exec h.objective (.loop c body .done) n exit' n₁) :
      ∃ depth, ∀ ⦃s d m⦄, depth + s ≤ d → d + 1 < 2 ^ 32 → m.functions = fs → SameBut h m n → Calm lasts m →
        (exit' = .done → Ready lasts h s d (some j) (insert q (own ∪ own')) m n₁) →
        Goes d [scoreLine "set" q h.objective "1", callLine x] m := by
    obtain ⟨nu, hused, hexec⟩ := hexec.loop_used
    obtain ⟨depth, hcalls⟩ := check_enterable hobj hc hq hmem he hj hplan hlasts hloop hfresh hbody hentry
      hcheck hends hexec
    refine ⟨depth, fun s d m hd hbound hfs hmn hm hready ↦ ?_⟩
    have husable : Usable h.objective m := hmn.symm.usable (usable_of_use hused)
    refine .cons hm (fun m₀ hquiet ↦ ?_) fun ma hreset ↦ ?_
    · exact works_assign hq .set hobj isName_one readInt?_one ((hquiet.sameBut (h := h)).usable husable)
    have hmarks := hreset.assign hq hmem hobj .set isName_one readInt?_one
    obtain ⟨nu', husedn, hsame⟩ := hmarks.used_alike hmn
    rw [hused] at husedn
    obtain rfl : nu = nu' := congrArg Prod.snd husedn
    have hcalm : Calm lasts _ := hreset.calm hmarks.grown.steady hm
    refine .cons hcalm (fun m₀ hquiet ↦ ?_) fun m₁ _ ↦ goes_nil d m₁
    refine (hcalls (i := 1) (s := s) le_rfl (by omega) hd ?_ (hquiet.sameBut.symm.trans hsame)
      (hcalm.of_quiet hquiet) ?_ (hquiet.objectives ▸ hmarks.mem_objectives) fun _ he ↦ ?_).works hx
    · rw [hquiet.toSetup, hreset.functions, hfs]
    · rw [hquiet.kept_eq, hmarks.here]
      rfl
    · exact (hready he).mono le_rfl hsub ((hmarks.keptOff.mono (by simp)).trans hquiet.keptOff)
  rcases hexec.loop_cases with ⟨n₁, hexec, hnext'⟩ | ⟨rfl, hexec'⟩
  · obtain ⟨depth₁, hgoes⟩ := hrounds hexec
    obtain ⟨depth₂, hwithin₂⟩ := hnextEnds hnext'
    refine ⟨depth₁ + depth₂ + 1, fun s d m hd hbound hfs hmn hm hres hready ↦ ?_⟩
    refine hgoes (s := depth₂ + 1 + s) (by omega) hbound hfs hmn hm fun _ ↦ ?_
    refine (hwithin₂.call hnextFind).ready ?_ (by omega) hres hready hsub' subset_rfl
    rw [hexec.sameSetup, ← hmn.functions, hfs]
  · obtain ⟨depth, hgoes⟩ := hrounds hexec'
    exact ⟨depth, fun s d m hd hbound hfs hmn hm hres _ ↦ hgoes (s := s) hd hbound hfs hmn hm (by simp)⟩

end Loops

end CommandPack.Machine
