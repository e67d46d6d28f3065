import Mathlib
import CommandPack.Proofs.Siting

/-!
The limits of a run. Every errand ends, no call is deeper than the machine allows, and the budget is exceeded
by one command at most. Limits only cut runs short: a run that succeeds does the same under looser limits.
-/

namespace CommandPack.Machine

open Stateful Text

variable {held : List Pending} {c : Config} {d k : Int} {words : List String} {actor : Actor} {m : Machine}
  {next : List String → Control × List Pending} {α β : Type}

/-- On machines of a kind an action does the same after a change of the machine, and the machine stays of the
kind. -/
def Passes (S : Machine → Prop) (f : Machine → Machine) (a : Action α) : Prop :=
  ∀ m, S m → a (f m) = ((a m).1, f (a m).2) ∧ S (a m).2

section Passes

variable {S : Machine → Prop} {f : Machine → Machine}

theorem passes_pure (x : α) : Passes S f (pure x : Action α) := fun _ hm ↦ ⟨rfl, hm⟩

theorem passes_bind {x : Action α} {g : α → Action β} (hx : Passes S f x) (hg : ∀ a, Passes S f (g a)) :
    Passes S f (x >>= g) := by
  intro m hm
  obtain ⟨heq, hm₁⟩ := hx m hm
  rw [bind_apply, bind_apply, heq]
  rcases h : x m with ⟨s | a, m₁⟩ <;> rw [h] at hm₁
  · exact ⟨rfl, hm₁⟩
  · exact hg a m₁ hm₁

theorem Acts.passes {E : Stop → Prop} {a : Action α} (h : Plain E a)
    (hf : ∀ m w, f (Machine.under m w) = Machine.under (f m) w) (hS : ∀ m w, S m → S (Machine.under m w)) : Passes S f a := by
  intro m hm
  have hkept : Machine.under m (a m).2 = (a m).2 := (congrArg Prod.snd (h.under m m)).symm
  have hfm : f m = Machine.under (f m) m := hf m m
  refine ⟨?_, hkept ▸ hS m _ hm⟩
  rw [hfm, h.under, ← hf, hkept]

theorem passes_enact {a : Action α} (ha : Passes S f a) (hm : S m) (held : List Pending)
    (next : α → Control × List Pending) :
    enact held a next (f m) = (enact held a next m).map f ∧ S (enact held a next m).machine := by
  obtain ⟨heq, hm₁⟩ := ha m hm
  rw [enact, enact, heq]
  rcases h : a m with ⟨s | x, m₁⟩ <;> rw [h] at hm₁ <;> exact ⟨rfl, hm₁⟩

end Passes

def relimit (k d : Int) (m : Machine) : Machine := { m with maxCommands := k, maxDepth := d }

def SameLimits (m m' : Machine) : Prop :=
  m'.maxCommands = m.maxCommands ∧ m'.maxDepth = m.maxDepth ∧ m'.count = m.count

/-- An action that takes no notice of the limits of a run, and leaves them and the count of commands alone. -/
structure Heedless (a : Action α) : Prop where
  passes (k d : Int) (m : Machine) : Passes (SameLimits m) (relimit k d) a
  raises : Raises (fun s ↦ s.isBudget = false) a

theorem blames_otherwise (site : Site) : Blames (fun s ↦ s.isBudget = false) site := by
  intro cause hcause
  cases cause <;> first | rfl | cases hcause

theorem Acts.heedless {a : Action α} (h : Plain (fun s ↦ s.isBudget = false) a) : Heedless a :=
  ⟨fun _ _ _ ↦ h.passes (fun _ _ ↦ rfl) fun _ _ hm ↦ hm, fun _ _ ↦ h.error⟩

theorem heedless_pure (x : α) : Heedless (pure x : Action α) := ⟨fun _ _ _ ↦ passes_pure x, raises_pure x⟩

theorem heedless_bind {x : Action α} {f : α → Action β} (hx : Heedless x) (hf : ∀ a, Heedless (f a)) :
    Heedless (x >>= f) :=
  ⟨fun k d m ↦ passes_bind (hx.passes k d m) fun a ↦ (hf a).passes k d m, raises_bind hx.raises fun a ↦ (hf a).raises⟩

theorem heedless_watch (wants : Machine → Observer → Bool) {event : Machine → Event} (site : Site)
    (hwants : ∀ k d m, wants (relimit k d m) = wants m) (hevent : ∀ k d m, event (relimit k d m) = event m) :
    Heedless (watch wants site event) := by
  refine ⟨fun k d m₀ m hm ↦ ?_, raises_watch (E := fun s ↦ s.isBudget = false) rfl (fun _ ↦ rfl) wants event⟩
  have hobserver : (relimit k d m).observer = m.observer := rfl
  simp only [watch, bind_apply, get_apply, andThen_ok, hobserver, hwants, hevent]
  cases m.observer with
  | none => exact ⟨rfl, hm⟩
  | some o =>
    dsimp only
    split
    · rw [notify_eq, notify_eq]
      exact ⟨rfl, hm⟩
    · exact ⟨rfl, hm⟩

theorem heedless_outset (site : Site) (actor : Actor) (h : setsBudget words = false) :
    Heedless (outset site actor words) :=
  (acts_outset (blames_otherwise site) allowsAll_true actor h).heedless

theorem heedless_applyStores (site : Site) (actor : Actor) (stores : List Store) (r : Result) :
    Heedless (applyStores stores site actor r) :=
  (acts_applyStores (blames_otherwise site) actor allowsAll_true stores r).heedless

theorem heedless_watchCall (site : Site) (path caller : String) : Heedless (watchCall site path caller) :=
  heedless_watch (fun _ o ↦ o.settings.calls) site (fun _ _ _ ↦ rfl) fun _ _ _ ↦ rfl

theorem heedless_watchReturn (site : Site) (path : String) : Heedless (watchReturn site path) :=
  heedless_watch (fun _ o ↦ o.settings.returns) site (fun _ _ _ ↦ rfl) fun _ _ _ ↦ rfl

theorem fetchWords_eq (site : Site) :
    ∃ a, Heedless a ∧ fetchWords site = (countCommand site >>= fun _ ↦ a) := by
  refine ⟨_, heedless_bind (heedless_watch (fun m o ↦ o.settings.mode.wants m.count) site
    (fun _ _ _ ↦ rfl) fun _ _ _ ↦ rfl) fun _ ↦ ?_, rfl⟩
  cases splitWords site.location.command with
  | error e => exact (acts_fault (blames_otherwise site) rfl).heedless
  | ok words => exact heedless_pure _

def Config.setsBudget (c : Config) : Bool :=
  match c.control with
  | .eval (.perform _ words _) => Machine.setsBudget words
  | _ => false

/-- The count of commands is within the budget `k`, or one over it when the run has stopped for that. -/
structure Metered (k : Int) (c : Config) : Prop where
  budget : c.machine.maxCommands = k
  within (h : c.control.isOver = false) : (c.machine.count : Int) ≤ k
  exceeded (h : c.control.isOver = true) : (c.machine.count : Int) = k + 1

section Metered

variable {k : Int}

theorem Metered.of_not_isOver (hbudget : c.machine.maxCommands = k) (hcount : (c.machine.count : Int) ≤ k)
    (hover : c.control.isOver = false) : Metered k c :=
  ⟨hbudget, fun _ ↦ hcount, fun h ↦ absurd (hover.symm.trans h) (by decide)⟩

theorem metered_enact {a : Action α} {next : α → Control × List Pending} (ha : Heedless a)
    (hbudget : m.maxCommands = k) (hcount : (m.count : Int) ≤ k) (hnext : ∀ x, (next x).1.isOver = false) :
    Metered k (enact held a next m) := by
  obtain ⟨-, hbudget', -, hcount'⟩ := passes_enact (ha.passes 0 0 m) ⟨rfl, rfl, rfl⟩ held next
  refine .of_not_isOver (hbudget'.trans hbudget) (hcount' ▸ hcount) ?_
  unfold enact
  rcases h : a m with ⟨s | x, m₁⟩
  · exact ha.raises (congrArg Prod.fst h)
  · exact hnext x

theorem metered_fetchWords (site : Site) (hk : 0 < k) (hbudget : m.maxCommands = k) (hcount : (m.count : Int) ≤ k)
    (hnext : ∀ x, (next x).1.isOver = false) : Metered k (enact held (fetchWords site) next m) := by
  obtain ⟨a, ha, hfetch⟩ := fetchWords_eq site
  by_cases hover : ((m.count + 1 : Nat) : Int) > k
  · -- the command that exceeds the budget is counted
    have hstop : fetchWords site m =
        (.error (.fault ⟨.budget m.maxCommands, site.location, site.frames⟩), { m with count := m.count + 1 }) := by
      have hcount : countOutcome site m = .error (.fault ⟨.budget m.maxCommands, site.location, site.frames⟩) := by
        rw [countOutcome, if_pos ⟨hbudget.symm ▸ hk, hbudget.symm ▸ hover⟩]
      rw [hfetch, bind_apply, countCommand_eq, hcount]
      rfl
    rw [enact, hstop]
    refine ⟨hbudget, fun h ↦ absurd h (by simp [Control.isOver, Stop.isBudget]), fun _ ↦ ?_⟩
    change ((m.count + 1 : Nat) : Int) = k + 1
    omega
  · have hcount' : ((m.count + 1 : Nat) : Int) ≤ k := by omega
    rw [enact, hfetch, bind_apply, countCommand_eq]
    cases hout : countOutcome site m with
    | error s =>
      have hs : s.isBudget = false := by
        rw [countOutcome, if_neg fun h ↦ hover (hbudget ▸ h.2)] at hout
        split at hout <;> cases hout
        rfl
      exact .of_not_isOver hbudget hcount' hs
    | ok _ => exact metered_enact ha hbudget hcount' hnext

theorem Metered.tick (hk : 0 < k) (h : Metered k c) (hsets : c.setsBudget = false) : Metered k (tick c) := by
  refine tick_cases (P := fun c' _ ↦ Metered k c') (f := id) (fun c' hm hc ↦ ?_) (fun hpart hover hnext ↦ ?_) rfl
    (.inl rfl)
  · rcases hc with rfl | ⟨hover, hover'⟩
    · exact h
    · exact .of_not_isOver (hm ▸ h.budget) (hm ▸ h.within hover) hover'
  · have hcount := h.within hover
    cases hpart with
    | fetch site => exact metered_fetchWords site hk h.budget hcount hnext
    | outset hc =>
      rw [Config.setsBudget, hc] at hsets
      exact metered_enact (heedless_outset _ _ hsets) h.budget hcount hnext
    | call site path caller => exact metered_enact (heedless_watchCall site path caller) h.budget hcount hnext
    | leave site path => exact metered_enact (heedless_watchReturn site path) h.budget hcount hnext
    | stores stores site actor r =>
      exact metered_enact (heedless_applyStores site actor stores r) h.budget hcount hnext

theorem Metered.iterate_tick (hk : 0 < k) (h : Metered k c) (hsets : ∀ i, (Machine.tick^[i] c).setsBudget = false)
    (i : Nat) : Metered k (Machine.tick^[i] c) := by
  induction i with
  | zero => exact h
  | succ i ih =>
    rw [Function.iterate_succ_apply']
    exact ih.tick hk (hsets i)

end Metered

theorem verdict_isOver {v : Except Stop Unit} (h : c.verdict? = some v) :
    c.control.isOver = true ↔ ∃ s, v = .error s ∧ s.isBudget = true := by
  rcases c with ⟨control, stack, m⟩
  cases control with
  | eval task => cases stack <;> cases h
  | ret r =>
    cases stack with
    | nil =>
      cases h
      simp [Control.isOver]
    | cons p stack => cases h
  | stop s =>
    have hv : v = .error s := by cases stack <;> cases h <;> rfl
    simp [Control.isOver, hv]

/-- Every errand ends within its limits. A busy machine refuses it. Otherwise ticks lead to its outcome; at
every moment there are at most as many active calls as the machine allows; and if no command sets the budget,
the count of commands is at most one over it, which happens exactly if the run fails for its budget. -/
theorem Errand.ends_within_limits (e : Errand) (m : Machine) :
    (m.running = true → e.outcome m = (.error .busy, m)) ∧
    (m.running = false → ∃ n, (tick^[n] (e.start m)).verdict? = some (e.outcome m).1 ∧
      (tick^[n] (e.start m)).machine.finish = (e.outcome m).2) ∧
    (∀ k, ((tick^[k] (e.start m)).frames.length : Int) ≤ max m.maxDepth 0) ∧
    (m.running = false → 0 < m.maxCommands → (∀ k, (tick^[k] (e.start m)).setsBudget = false) →
      ((e.outcome m).2.count : Int) ≤ m.maxCommands + 1 ∧
      (((e.outcome m).2.count : Int) = m.maxCommands + 1 ↔
        ∃ s, (e.outcome m).1 = .error s ∧ s.isBudget = true)) := by
  refine ⟨e.outcome_of_running, e.reaches_outcome, e.frames_le m, fun hm hk hsets ↦ ?_⟩
  obtain ⟨n, hverdict, hmachine⟩ := e.reaches_outcome hm
  have hstart : Metered m.maxCommands (e.start m) := by
    refine .of_not_isOver rfl ?_ (by cases e <;> rfl)
    change ((0 : Nat) : Int) ≤ _
    omega
  have hend := hstart.iterate_tick hk hsets n
  have hcount : (e.outcome m).2.count = (tick^[n] (e.start m)).machine.count := by
    rw [← hmachine]
    rfl
  have hover := verdict_isOver hverdict
  rw [hcount]
  cases hcontrol : (tick^[n] (e.start m)).control.isOver with
  | false =>
    have hle := hend.within hcontrol
    rw [hcontrol] at hover
    refine ⟨by omega, fun h ↦ absurd h (by omega), fun h ↦ absurd (hover.2 h) (by decide)⟩
  | true =>
    have heq := hend.exceeded hcontrol
    exact ⟨heq.le, fun _ ↦ hover.1 hcontrol, fun _ ↦ heq⟩

def endless : Machine := { functions := [("a:f", ["function a:f"])], maxCommands := 2, maxDepth := 5 }

theorem Errand.ends_within_limits_endless :
    endless.running = false ∧ 0 < endless.maxCommands ∧
      (∀ k, (tick^[k] ((Errand.run "a:f" false).start endless)).setsBudget = false) ∧
      ((Errand.run "a:f" false).outcome endless).2.count = 3 ∧
      ∃ s, ((Errand.run "a:f" false).outcome endless).1 = .error s ∧ s.isBudget = true := by
  have hsets (k : Nat) : (tick^[k] ((Errand.run "a:f" false).start endless)).setsBudget = false := by
    by_cases hk : k ≤ 12
    · interval_cases k <;> rfl
    · obtain ⟨i, rfl⟩ := Nat.exists_eq_add_of_le' (Nat.le_of_not_le hk)
      rw [Function.iterate_add_apply, Function.iterate_fixed]
      · rfl
      · rfl
  have hcount : ((Errand.run "a:f" false).outcome endless).2.count = 3 := by decide +kernel
  refine ⟨rfl, by decide, hsets, hcount, ?_⟩
  refine (((Errand.run "a:f" false).ends_within_limits endless).2.2.2 rfl (by decide) hsets).2.1 ?_
  rw [hcount]
  decide

/-- The limits `k` and `d` are no tighter than those of a machine. -/
structure Loosens (k d : Int) (m : Machine) : Prop where
  depth : m.maxDepth ≤ d
  budget : k ≤ 0 ∨ 0 < m.maxCommands ∧ m.maxCommands ≤ k

def Config.stopped (c : Config) : Bool :=
  match c.control with
  | .stop _ => true
  | _ => false

/-- One tick under looser limits does the same, unless the run stops. -/
def FollowsLooser (d : Int) (c c' : Config) : Prop :=
  c.stopped = false → ∃ k, Loosens k d c.machine ∧ c' = c.map (relimit k d)

theorem follows_enact {a : Action α} {next : α → Control × List Pending} (ha : Heedless a) (h : Loosens k d m) :
    FollowsLooser d (enact held a next m) (enact held a next (relimit k d m)) := by
  obtain ⟨heq, hbudget, hdepth, -⟩ := passes_enact (ha.passes k d m) ⟨rfl, rfl, rfl⟩ held next
  exact fun _ ↦ ⟨k, ⟨hdepth ▸ h.depth, hbudget ▸ h.budget⟩, heq⟩

theorem loosens_countOutcome {site : Site} (h : Loosens k d m) (hm : countOutcome site m = .ok ()) :
    countOutcome site (relimit k d m) = .ok () := by
  have hbudget : ¬ (m.maxCommands > 0 ∧ ((m.count + 1 : Nat) : Int) > m.maxCommands) := by
    intro hover
    rw [countOutcome, if_pos hover] at hm
    cases hm
  have hbudget' : ¬ ((relimit k d m).maxCommands > 0 ∧
      (((relimit k d m).count + 1 : Nat) : Int) > (relimit k d m).maxCommands) := by
    have hk := h.budget
    change ¬ (k > 0 ∧ ((m.count + 1 : Nat) : Int) > k)
    omega
  rw [countOutcome, if_neg hbudget] at hm
  rw [countOutcome, if_neg hbudget']
  exact hm

theorem follows_fetchWords (site : Site) (h : Loosens k d m) :
    FollowsLooser d (enact held (fetchWords site) next m) (enact held (fetchWords site) next (relimit k d m)) := by
  obtain ⟨a, ha, hfetch⟩ := fetchWords_eq site
  cases hout : countOutcome site m with
  | error s =>
    intro hstop
    rw [enact, hfetch, bind_apply, countCommand_eq, hout] at hstop
    cases hstop
  | ok _ =>
    -- the command is counted alike, and what follows takes no notice of limits
    have hcounted (m : Machine) (hm : countOutcome site m = .ok ()) :
        enact held (fetchWords site) next m = enact held a next { m with count := m.count + 1 } := by
      rw [enact, enact, hfetch, bind_apply, countCommand_eq, hm]
      rfl
    rw [hcounted m hout, hcounted _ (loosens_countOutcome h hout)]
    exact follows_enact ha ⟨h.depth, h.budget⟩

theorem follows_gamerule {site : Site} (hwords : setsBudget words = true) {next : Outset → Control × List Pending}
    (h : Loosens k d m) :
    FollowsLooser d (enact held (outset site actor words) next m)
      (enact held (outset site actor words) next (relimit k d m)) := by
  obtain ⟨value, hrule⟩ := outset_of_setsBudget hwords
  intro hstop
  rw [enact, hrule] at hstop ⊢
  rw [enact, hrule]
  cases hvalue : Decimal.readInt? 64 value with
  | none =>
    rw [hvalue] at hstop
    cases hstop
  | some n =>
    refine ⟨n, ⟨h.depth, ?_⟩, rfl⟩
    change n ≤ 0 ∨ 0 < n ∧ n ≤ n
    omega

theorem follows_tick (h : Loosens k d c.machine) : FollowsLooser d (tick c) (tick (c.map (relimit k d))) := by
  refine tick_cases (fun c' hm _ _ ↦ ⟨k, hm ▸ h, rfl⟩) (fun hpart _ _ ↦ ?_) rfl (.inr ⟨h.depth, fun _ _ _ ↦ nofun⟩)
  cases hpart with
  | fetch site => exact follows_fetchWords site h
  | @outset site words actor hc =>
    cases hwords : setsBudget words with
    | true => exact follows_gamerule hwords h
    | false => exact follows_enact (heedless_outset site actor hwords) h
  | call site path caller => exact follows_enact (heedless_watchCall site path caller) h
  | leave site path => exact follows_enact (heedless_watchReturn site path) h
  | stores stores site actor r => exact follows_enact (heedless_applyStores site actor stores r) h

theorem stopped_tick (h : c.stopped = true) : (tick c).stopped = true := by
  rcases c with ⟨control, stack, m⟩
  cases control with
  | stop s => cases stack <;> rfl
  | _ => cases h

theorem follows_iterate_tick (h : Loosens k d c.machine) (n : Nat) :
    FollowsLooser d (tick^[n] c) (tick^[n] (c.map (relimit k d))) := by
  induction n with
  | zero => exact fun _ ↦ ⟨k, h, rfl⟩
  | succ n ih =>
    rw [Function.iterate_succ_apply', Function.iterate_succ_apply']
    intro hstop
    have hbefore : (tick^[n] c).stopped = false :=
      Bool.eq_false_iff.2 fun hstopped ↦ absurd (stopped_tick hstopped) (Bool.eq_false_iff.1 hstop)
    obtain ⟨k', hk', hc⟩ := ih hbefore
    rw [hc]
    exact follows_tick hk' hstop

theorem Errand.start_relimit (e : Errand) (k d : Int) (m : Machine) :
    e.start (relimit k d m) = (e.start m).map (relimit k d) := by
  cases e <;> rfl

theorem stopped_of_verdict (h : c.verdict? = some (.ok ())) : c.stopped = false := by
  rcases c with ⟨control, stack, m⟩
  cases control with
  | stop s => cases stack <;> cases h
  | _ => rfl

/-- Limits only cut runs short: a run that succeeds does so under any looser limits, and leaves the same
machine but for the limits. -/
theorem run_relimit {m m₁ : Machine} {path : String} {cancelled : Bool} {k d : Int} (hd : m.maxDepth ≤ d)
    (hk : k ≤ 0 ∨ 0 < m.maxCommands ∧ m.maxCommands ≤ k) (h : m.run path cancelled = (.ok (), m₁)) :
    ∃ k', (relimit k d m).run path cancelled = (.ok (), relimit k' d m₁) := by
  obtain ⟨hidle, n, hverdict, rfl⟩ := Errand.exists_tick (e := .run path cancelled) h nofun
  -- the run under looser limits reaches the same end
  have hstart : Loosens k d ((Errand.run path cancelled).start m).machine := ⟨hd, hk⟩
  obtain ⟨k', -, hend⟩ := follows_iterate_tick hstart n (stopped_of_verdict hverdict)
  rw [← Errand.start_relimit] at hend
  have hidle' : (relimit k d m).running = false := hidle
  obtain ⟨o', ⟨c', hc', hverdict', hmachine'⟩, hout'⟩ := (Errand.run path cancelled).ends hidle'
  have hsame := Leads.verdict_unique hc' hverdict' ⟨n, hend⟩ hverdict
  have hresult : o'.1 = .ok () := by
    rw [hsame] at hverdict'
    exact Option.some_injective _ (hverdict'.symm.trans hverdict)
  refine ⟨k', ?_⟩
  change (Errand.run path cancelled).outcome (relimit k d m) = _
  rw [hout', hresult, ← hmachine', hsame]
  rfl

def threeLines : Machine :=
  { functions := [("a:f", ["gamerule maxCommandChainLength 5", "say b", "say c"])], maxCommands := 3, maxDepth := 1 }

theorem run_relimit_threeLines :
    (threeLines.run "a:f").1 = .ok () ∧
      ∃ k', (relimit 0 7 threeLines).run "a:f" = (.ok (), relimit k' 7 (threeLines.run "a:f").2) := by
  have hend : (threeLines.run "a:f").1.toBool = true := by decide +kernel
  have hok : (threeLines.run "a:f").1 = .ok () := by
    cases h : (threeLines.run "a:f").1 with
    | ok _ => rfl
    | error s =>
      rw [h] at hend
      cases hend
  exact ⟨hok, run_relimit (by decide) (.inl le_rfl) (Prod.ext hok rfl)⟩

end CommandPack.Machine
