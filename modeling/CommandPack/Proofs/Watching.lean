import Mathlib
import CommandPack.Proofs.Limiting

/-!
Watching a run does not change it. An observer that lets the run go on leaves no trace but its log, whatever
events it wants to be told about; and the runs that it tries to start on the machine it watches are refused.
-/

namespace CommandPack.Machine

open Stateful

variable {α : Type}

def watchedBy (observer : Option Observer) (m : Machine) : Machine := { m with observer }

/-- A machine without its observer, whose log is given. -/
def unwatched (log : Array LogEntry) (m : Machine) : Machine := { m with observer := none, log }

/-- An action that does the same on a machine without the observer, and keeps the observer of any other. -/
def Unaffected (o : Observer) (a : Action α) : Prop :=
  ∀ log, Passes (fun m ↦ m.observer = some o) (unwatched log) a

section Unaffected

variable {o : Observer}

theorem Acts.unaffected {E : Stop → Prop} {a : Action α} (h : Plain E a) : Unaffected o a :=
  fun _ ↦ h.passes (fun _ _ ↦ rfl) fun _ _ hm ↦ hm

theorem unaffected_outset (site : Site) (actor : Actor) (words : List String) :
    Unaffected o (outset site actor words) := by
  cases hwords : setsBudget words with
  | false => exact (acts_outset (blames_otherwise site) allowsAll_true actor hwords).unaffected
  | true =>
    obtain ⟨value, hrule⟩ := outset_of_setsBudget hwords
    intro log m hm
    rw [hrule, hrule]
    cases Decimal.readInt? 64 value <;> exact ⟨rfl, hm⟩

variable (ho : ∀ log, o.verdict log = .proceed)

include ho

theorem notify_proceeds (site : Site) (event : Event) (m : Machine) :
    notify o site event m = (.ok (), { m with log := logAfter o event m }) := by
  rw [notify_eq, ho]
  rfl

theorem unaffected_watch (wants : Machine → Observer → Bool) {site : Site} {event : Machine → Event} :
    Unaffected o (watch wants site event) := by
  intro log m hm
  simp only [watch, bind_apply, get_apply, andThen_ok, hm]
  cases wants m o
  · exact ⟨rfl, hm⟩
  · rw [if_pos rfl, notify_proceeds ho]
    exact ⟨rfl, hm⟩

theorem unaffected_part {c : Config} {a : Action α} (h : Part c a) : Unaffected o a := by
  cases h with
  | fetch site =>
    refine fun log ↦ passes_bind (fun m hm ↦ ?_) fun _ ↦
      passes_bind (unaffected_watch ho (fun m o ↦ o.settings.mode.wants m.count) log) fun _ ↦ ?_
    · rw [countCommand_eq, countCommand_eq]
      exact ⟨rfl, hm⟩
    · split
      · exact (acts_fault (blames_otherwise site) rfl).unaffected log
      · exact passes_pure _
  | outset => exact unaffected_outset _ _ _
  | call site path caller => exact unaffected_watch ho fun _ o ↦ o.settings.calls
  | leave site path => exact unaffected_watch ho fun _ o ↦ o.settings.returns
  | stores stores site actor r =>
    exact (acts_applyStores (blames_otherwise site) actor allowsAll_true stores r).unaffected

end Unaffected

/-- A moment of a watched run leads where it leads without the observer. -/
def FollowsWatched (o : Observer) (log : Array LogEntry) (c c' : Config) : Prop :=
  c' = c.map (unwatched log) ∧ c.machine.observer = some o

theorem followsWatched_iterate_tick {o : Observer} (ho : ∀ log, o.verdict log = .proceed) {c : Config}
    (hc : c.machine.observer = some o) (log : Array LogEntry) (n : Nat) :
    FollowsWatched o log (tick^[n] c) (tick^[n] (c.map (unwatched log))) := by
  induction n with
  | zero => exact ⟨rfl, hc⟩
  | succ n ih =>
    rw [Function.iterate_succ_apply', Function.iterate_succ_apply', ih.1]
    refine tick_cases (fun c' hm _ ↦ ⟨rfl, hm ▸ ih.2⟩) (fun hpart _ _ ↦ ?_) rfl (.inl rfl)
    exact passes_enact (unaffected_part ho hpart log) ih.2 _ _

/-- As busy as before. -/
def AsBusy (m m' : Machine) : Prop := m'.running = m.running

instance : IsPreorder Machine AsBusy where
  refl _ := rfl
  trans _ _ _ h h' := h'.trans h

theorem allowsAll_asBusy : AllowsAll AsBusy where
  scores := .of_all fun _ _ _ _ ↦ rfl
  data := .of_all fun _ _ _ _ ↦ rfl
  entities := .of_all fun _ _ _ ↦ rfl
  chat _ _ := rfl
  rules _ _ _ := rfl

theorem allowsCounters_asBusy : AllowsCounters AsBusy := fun _ _ _ ↦ rfl

theorem Errand.running (e : Errand) (m : Machine) (n : Nat) : (tick^[n] (e.start m)).machine.running = true := by
  induction n with
  | zero => rfl
  | succ n ih =>
    rw [Function.iterate_succ_apply']
    exact (keeps_tick allowsCounters_asBusy allowsAll_asBusy _).trans ih

def Config.answer? (c : Config) : Option (Except Stop Result) :=
  match c.control, c.stack with
  | .stop s, _ => some (.error s)
  | .ret r, [] => some (.ok r)
  | _, _ => none

theorem Config.verdict?_eq (c : Config) : c.verdict? = c.answer?.map fun a ↦ a.map fun _ ↦ () := by
  rcases c with ⟨_ | _ | _, _ | _, m⟩ <;> rfl

theorem Settles.answer {c : Config} {out : Except Stop Result × Machine} (h : Settles c [] out) :
    ∃ c', Leads c c' ∧ c'.answer? = some out.1 ∧ c'.machine = out.2 := by
  rcases out with ⟨s | r, m⟩
  · obtain ⟨held, h⟩ := h
    exact ⟨_, h, by cases held <;> rfl, rfl⟩
  · exact ⟨_, h, rfl, rfl⟩

theorem exec_answers {m : Machine} (hm : m.running = false) (command : String) (cancelled : Bool) :
    ∃ out : Except Stop Result × Machine,
      (∃ c, Leads ((Errand.exec command cancelled).start m) c ∧ c.answer? = some out.1 ∧ c.machine = out.2) ∧
      m.exec command cancelled = (out.1, out.2.finish) := by
  have hend : Settles ((Errand.exec command cancelled).start m) [] _ :=
    settles_step (settlesCalls m.maxDepth.toNat) _ {} (Nat.zero_add _)
  exact ⟨_, hend.answer, asRun_eq hm cancelled _⟩

/-- The outcome of a run and the same outcome as an observer leaves it: they differ by the observer and its
log. -/
def SeenBy (o : Observer) (out seen : Except Stop α × Machine) : Prop :=
  ∃ log, seen = (out.1, { out.2 with observer := some o, log })

section Errands

variable {o : Observer} (ho : ∀ log, o.verdict log = .proceed) (m : Machine)

include ho

theorem Errand.unwatched_end (e : Errand) {c c₀ : Config} {v v₀ : Except Stop Unit}
    (hc : Leads (e.start (m.watchedBy (some o))) c) (hv : c.verdict? = some v)
    (hc₀ : Leads (e.start (m.watchedBy none)) c₀) (hv₀ : c₀.verdict? = some v₀) :
    c₀ = c.map (unwatched m.log) ∧ c.machine.observer = some o := by
  obtain ⟨n, rfl⟩ := hc
  have hobserver : (e.start (m.watchedBy (some o))).machine.observer = some o := rfl
  have hfollows := followsWatched_iterate_tick ho hobserver m.log n
  have hstart : (e.start (m.watchedBy (some o))).map (unwatched m.log) = e.start (m.watchedBy none) := by
    cases e <;> rfl
  rw [hstart] at hfollows
  exact ⟨Leads.verdict_unique hc₀ hv₀ ⟨n, hfollows.1⟩ hv, hfollows.2⟩

/-- A run that ends with an answer: what it is read from takes no notice of the observer. -/
theorem Errand.seenBy_of_ends (e : Errand) {answer? : Config → Option (Except Stop α)}
    (hverdict : ∀ c, (answer? c).isSome = true → ∃ v, c.verdict? = some v)
    (hanswer : ∀ c log, answer? (c.map (unwatched log)) = answer? c) {out : Machine → Except Stop α × Machine}
    (hbusy : ∀ m, m.running = true → out m = (.error .busy, m))
    (hends : ∀ m, m.running = false → ∃ o : Except Stop α × Machine,
      (∃ c, Leads (e.start m) c ∧ answer? c = some o.1 ∧ c.machine = o.2) ∧ out m = (o.1, o.2.finish)) :
    SeenBy o (out (m.watchedBy none)) (out (m.watchedBy (some o))) := by
  cases hrunning : m.running with
  | true =>
    rw [hbusy (m.watchedBy none) hrunning, hbusy (m.watchedBy (some o)) hrunning]
    exact ⟨m.log, rfl⟩
  | false =>
    obtain ⟨out, ⟨c, hc, ha, hmachine⟩, hout⟩ := hends (m.watchedBy (some o)) hrunning
    obtain ⟨out₀, ⟨c₀, hc₀, ha₀, hmachine₀⟩, hout₀⟩ := hends (m.watchedBy none) hrunning
    obtain ⟨v, hv⟩ := hverdict c (by rw [ha, Option.isSome_some])
    obtain ⟨v₀, hv₀⟩ := hverdict c₀ (by rw [ha₀, Option.isSome_some])
    obtain ⟨rfl, hobserver⟩ := e.unwatched_end ho m hc hv hc₀ hv₀
    have hresult : out.1 = out₀.1 := by
      rw [hanswer] at ha₀
      exact Option.some_injective _ (ha.symm.trans ha₀)
    refine ⟨c.machine.log, ?_⟩
    rw [hout, hout₀, ← hmachine, ← hmachine₀, hresult, ← hobserver]
    rfl

theorem Errand.seenBy (e : Errand) :
    SeenBy o (e.outcome (m.watchedBy none)) (e.outcome (m.watchedBy (some o))) :=
  e.seenBy_of_ends ho m (fun _ ↦ Option.isSome_iff_exists.1) (fun _ _ ↦ rfl) (fun _ ↦ e.outcome_of_running) fun _ ↦ e.ends

theorem seenBy_exec (command : String) (cancelled : Bool) :
    SeenBy o (exec (m.watchedBy none) command cancelled) (exec (m.watchedBy (some o)) command cancelled) := by
  have hverdict (c : Config) (hc : c.answer?.isSome = true) : ∃ v, c.verdict? = some v := by
    obtain ⟨a, ha⟩ := Option.isSome_iff_exists.1 hc
    exact ⟨_, by rw [c.verdict?_eq, ha, Option.map_some]⟩
  exact (Errand.exec command cancelled).seenBy_of_ends ho m hverdict (fun _ _ ↦ rfl)
    (fun m hm ↦ by simp [exec, asRun, begin, hm]) fun m hm ↦ exec_answers hm command cancelled

end Errands

/-- Watching a run does not change it. Let an observer always let the run go on, whatever it wants to be told
about and whenever it tries to start a run of its own. Then a run, a load and a single command end with the
result they have without the observer and leave the machine that they leave without it, but for the observer's
log. Whatever is tried on the machine while the run lasts is refused and does nothing. -/
theorem watching_changes_nothing {o : Observer} (ho : ∀ log, o.verdict log = .proceed) (m : Machine) :
    (∀ path cancelled, SeenBy o (run (m.watchedBy none) path cancelled)
      (run (m.watchedBy (some o)) path cancelled)) ∧
    (∀ cancelled, SeenBy o (load (m.watchedBy none) cancelled) (load (m.watchedBy (some o)) cancelled)) ∧
    (∀ command cancelled, SeenBy o (exec (m.watchedBy none) command cancelled)
      (exec (m.watchedBy (some o)) command cancelled)) ∧
    ∀ (e e' : Errand) n, e'.outcome (tick^[n] (e.start (m.watchedBy (some o)))).machine =
      (.error .busy, (tick^[n] (e.start (m.watchedBy (some o)))).machine) := by
  refine ⟨fun path cancelled ↦ (Errand.run path cancelled).seenBy ho m,
    fun cancelled ↦ (Errand.load cancelled).seenBy ho m, seenBy_exec ho m, fun e e' n ↦ ?_⟩
  exact e'.outcome_of_running (e.running _ n)

/-- An observer that samples every command and tries to start a run at every event. -/
def meddler : Observer := { settings := ⟨.sampled (-3), true, false⟩, intrudes := fun _ ↦ true }

/-- A function that calls another one for what it summons. -/
def summoner : Machine :=
  { functions := [("a:f", ["summon marker 0 0 0", "execute as @e run function a:g"]), ("a:g", ["say b", "jump"])] }

theorem watching_changes_nothing_meddler :
    (∀ log, meddler.verdict log = .proceed) ∧ (run (summoner.watchedBy (some meddler)) "a:f").2.log.size = 12 ∧
      SeenBy meddler (run (summoner.watchedBy none) "a:f")
        (run (summoner.watchedBy (some meddler)) "a:f") :=
  ⟨fun _ ↦ rfl, by decide +kernel, (watching_changes_nothing (fun _ ↦ rfl) summoner).1 "a:f" false⟩

end CommandPack.Machine
