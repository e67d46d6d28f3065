import Mathlib
import CommandPack.Proofs.Locating
import CommandPack.Proofs.Watching

/-!
The events of a run are a well-nested account of it. A ledger is kept by the events alone: the calls that are
open, how many commands each of them has executed, and the number of all commands. Every event of a watched run
fits the ledger, which at each moment holds the active calls; at the end all calls are closed.
-/

namespace CommandPack.Machine

open Stateful

variable {α : Type}

/-- A call that has not returned, with the number of its commands that were executed. -/
structure OpenCall where
  function : String
  depth : Nat
  lines : Nat
deriving DecidableEq

structure Ledger where
  calls : List OpenCall := []
  count : Nat := 0
deriving DecidableEq

/-- The ledger after an event, if the event fits it. A call goes one level deeper than the open calls. A command
is the next one of the innermost open call: it bears the name of its function, the next line and the command
there, the number of open calls and the next count. A return closes the innermost open call: it bears the name
of its function and a depth one less than that of the call, all of whose commands were executed. -/
def Ledger.enter? (functions : Dict (List String)) (l : Ledger) : Event → Option Ledger
  | .call function _ depth =>
    if depth = l.calls.length + 1 then some { l with calls := ⟨function, depth, 0⟩ :: l.calls } else none
  | .command function line command depth count =>
    match l.calls with
    | [] => none
    | call :: calls =>
      if function = call.function ∧ line = ((call.lines + 1 : Nat) : Int) ∧
          ((Dict.find? function functions).bind (·[call.lines]?)) = some command ∧
          depth = calls.length + 1 ∧ count = l.count + 1 then
        some ⟨{ call with lines := call.lines + 1 } :: calls, count⟩
      else none
  | .leave function depth =>
    match l.calls with
    | [] => none
    | call :: calls =>
      if function = call.function ∧ depth + 1 = call.depth ∧
          (Dict.find? function functions).map List.length = some call.lines then
        some { l with calls }
      else none

def recount (functions : Dict (List String)) (events : List Event) : Option Ledger :=
  events.foldlM (Ledger.enter? functions) {}

/-- The events logged since those of `before` add up to a ledger. -/
def AddsUp (functions : Dict (List String)) (before : List Event) (log : Array LogEntry) (l : Ledger) : Prop :=
  ∃ events, eventsOf log = before ++ events ∧ recount functions events = some l

section Ledger

variable {functions : Dict (List String)} {before : List Event} {log log' : Array LogEntry} {l l' : Ledger}

theorem AddsUp.add (event : Event) (h : AddsUp functions before log l) (hfits : l.enter? functions event = some l')
    (hlog : eventsOf log' = eventsOf log ++ [event]) : AddsUp functions before log' l' := by
  obtain ⟨events, hevents, hcount⟩ := h
  refine ⟨events ++ [event], by rw [hlog, hevents, List.append_assoc], ?_⟩
  have hstart : List.foldlM (Ledger.enter? functions) {} events = some l := hcount
  simp [recount, List.foldlM_append, hstart, hfits]

end Ledger

/-- An active call as the ledger has it. -/
def Pending.openCall? : Pending → Option OpenCall
  | lines path site _ line _ _ => some ⟨path, site.frames.length + 1, line - 1⟩
  | _ => none

def openOf (stack : List Pending) : List OpenCall := stack.filterMap Pending.openCall?

/-- The open calls before the command that the innermost is at. -/
def uncounted : List OpenCall → List OpenCall
  | [] => []
  | call :: calls => { call with lines := call.lines - 1 } :: calls

/-- The ledger of a moment. A command that is about to be executed is not in it yet. -/
def Config.ledger (c : Config) : Ledger :=
  match c.control with
  | .eval (.step _ _) => ⟨uncounted (openOf c.stack), c.machine.count⟩
  | _ => ⟨openOf c.stack, c.machine.count⟩

theorem framesOf_eq {K : Chart} {stack : List Pending} (h : InPlace K stack) :
    framesOf stack = (openOf stack).map fun call ↦ ⟨call.function, (call.lines : Int)⟩ := by
  induction stack with
  | nil => rfl
  | cons p stack ih =>
    obtain ⟨-, hplace, hstack⟩ := h
    cases p with
    | lines path site actor line rest total =>
      obtain ⟨done, -, hline, -⟩ := hplace
      have hlines : (line : Int) - 1 = ((line - 1 : Nat) : Int) := by omega
      change (⟨path, (line : Int) - 1⟩ : Frame) :: framesOf stack = ⟨path, ((line - 1 : Nat) : Int)⟩ :: _
      rw [hlines, ih hstack]
      rfl
    | _ => exact ih hstack

def Uncounted (a : Action α) : Prop := ∀ m, (a m).2.log = m.log ∧ (a m).2.count = m.count

theorem Acts.uncounted {E : Stop → Prop} {a : Action α} (h : Plain E a) : Uncounted a :=
  fun m ↦ (h.passes (S := fun m' ↦ m'.log = m.log ∧ m'.count = m.count) (f := id) (fun _ _ ↦ rfl) (fun _ _ hm ↦ hm) m
    ⟨rfl, rfl⟩).2

theorem uncounted_outset (site : Site) (actor : Actor) (words : List String) : Uncounted (outset site actor words) := by
  cases hwords : setsBudget words with
  | false => exact (acts_outset (blames_otherwise site) allowsAll_true actor hwords).uncounted
  | true =>
    obtain ⟨value, hrule⟩ := outset_of_setsBudget hwords
    intro m
    rw [hrule]
    cases Decimal.readInt? 64 value <;> exact ⟨rfl, rfl⟩

theorem uncounted_applyStores (site : Site) (actor : Actor) (stores : List Store) (r : Result) :
    Uncounted (applyStores stores site actor r) :=
  (acts_applyStores (blames_otherwise site) actor allowsAll_true stores r).uncounted

def Site.commandEvent (site : Site) (count : Nat) : Event :=
  .command site.location.function site.location.line site.location.command site.frames.length count

/-- An observer that is told everything and always lets the run go on. -/
structure Attentive (o : Observer) : Prop where
  settings : o.settings = ⟨.all, true, true⟩
  proceeds (log : Array LogEntry) : o.verdict log = .proceed

section Events

variable {o : Observer} (ho : Attentive o) {m : Machine} (hm : m.observer = some o) (site : Site)

include ho hm

theorem watch_eq (wants : Machine → Observer → Bool) {event : Machine → Event} (hwants : wants m o = true) :
    watch wants site event m = (.ok (), { m with log := logAfter o (event m) m }) := by
  simp only [watch, bind_apply, get_apply, andThen_ok, hm, hwants, if_true]
  exact notify_proceeds ho.proceeds site _ m

theorem watchCall_eq (path caller : String) : watchCall site path caller m =
    (.ok (), { m with log := logAfter o (.call path caller site.frames.length) m }) :=
  watch_eq ho hm site (fun _ o ↦ o.settings.calls) (by rw [ho.settings])

theorem watchReturn_eq (path : String) : watchReturn site path m =
    (.ok (), { m with log := logAfter o (.leave path site.frames.length) m }) :=
  watch_eq ho hm site (fun _ o ↦ o.settings.returns) (by rw [ho.settings])

theorem watchCommand_eq :
    watchCommand site m = (.ok (), { m with log := logAfter o (site.commandEvent m.count) m }) :=
  watch_eq ho hm site (fun m o ↦ o.settings.mode.wants m.count) (by rw [ho.settings]; rfl)

theorem fetchWords_logs {words : List String} {m₁ : Machine} (h : fetchWords site m = (.ok words, m₁)) :
    m₁.count = m.count + 1 ∧ eventsOf m₁.log = eventsOf m.log ++ [site.commandEvent (m.count + 1)] := by
  simp only [fetchWords, bind_apply, countCommand_eq] at h
  cases hout : countOutcome site m with
  | error s =>
    rw [hout] at h
    cases h
  | ok _ =>
    have hm' : ({ m with count := m.count + 1 } : Machine).observer = some o := hm
    rw [hout, andThen_ok, bind_apply, watchCommand_eq ho hm', andThen_ok] at h
    cases hwords : splitWords site.location.command with
    | error e =>
      rw [hwords] at h
      cases h
    | ok ws =>
      rw [hwords] at h
      cases h
      exact ⟨rfl, eventsOf_logAfter o _ _⟩

end Events

/-- Unless the run has stopped, its events add up to the ledger of the moment. -/
def Booked (functions : Dict (List String)) (before : List Event) (c : Config) : Prop :=
  c.stopped = false → AddsUp functions before c.machine.log c.ledger

section Booked

variable {functions : Dict (List String)} {before : List Event} {stack : List Pending} {m : Machine}

theorem booked_enact {held : List Pending} {a : Action α} {next : α → Control × List Pending}
    (h : ∀ x m₁, a m = (.ok x, m₁) → AddsUp functions before m₁.log (Config.ledger ⟨(next x).1, (next x).2, m₁⟩)) :
    Booked functions before (enact held a next m) := by
  unfold enact
  rcases ha : a m with ⟨s | x, m₁⟩
  · nofun
  · exact fun _ ↦ h x m₁ ha

theorem booked_uncounted {held : List Pending} {a : Action α} {next : α → Control × List Pending} (ha : Uncounted a)
    (h : AddsUp functions before m.log ⟨openOf stack, m.count⟩)
    (hnext : ∀ x m, Config.ledger ⟨(next x).1, (next x).2, m⟩ = ⟨openOf stack, m.count⟩) :
    Booked functions before (enact held a next m) := by
  refine booked_enact fun x m₁ hx ↦ ?_
  obtain ⟨hlog, hcount⟩ := ha m
  rw [hx] at hlog hcount
  rwa [hnext, hlog, hcount]

theorem ledger_nextActor (site : Site) (words : List String) (stores : List Store) (last : Result)
    (actors : List Actor) (m : Machine) :
    Config.ledger ⟨(nextActor site words stores last stack actors).1,
      (nextActor site words stores last stack actors).2, m⟩ = ⟨openOf stack, m.count⟩ := by
  cases actors <;> rfl

theorem ledger_outset (site : Site) (actor : Actor) (o : Outset) (m : Machine) :
    Config.ledger ⟨(o.next site actor stack).1, (o.next site actor stack).2, m⟩ = ⟨openOf stack, m.count⟩ := by
  cases o with
  | each chain words => exact ledger_nextActor site words chain.stores .failed chain.actors m
  | _ => rfl

theorem enter?_command {site : Site} (hsite : site.Fits (.full functions) stack) (hframes : site.frames ≠ [])
    (hstack : InPlace (.full functions) stack) (count : Nat) :
    Ledger.enter? functions ⟨uncounted (openOf stack), count⟩ (site.commandEvent (count + 1)) =
      some ⟨openOf stack, count + 1⟩ := by
  have hopen : site.frames = (openOf stack).map fun call ↦ ⟨call.function, (call.lines : Int)⟩ :=
    hsite.frames.trans (framesOf_eq hstack)
  have hlocates : Locates functions site.location site.frames := hsite.knows
  rcases hcalls : openOf stack with _ | ⟨call, calls⟩
  · rw [hcalls] at hopen
    exact absurd hopen hframes
  · rw [hcalls, List.map_cons] at hopen
    rw [hopen] at hlocates
    obtain ⟨hpoint, commands, i, hcommands, hline, hcommand⟩ := hlocates
    have hfunction : call.function = site.location.function := congrArg Frame.function hpoint
    have hlines : (call.lines : Int) = site.location.line := congrArg Frame.line hpoint
    obtain ⟨function, depth, lines⟩ := call
    obtain rfl : lines = i + 1 := by
      change (lines : Int) = _ at hlines
      omega
    obtain rfl : function = site.location.function := hfunction
    simp [Ledger.enter?, Site.commandEvent, uncounted, hopen, hcommands, hcommand, hline]

variable {o : Observer} (ho : Attentive o) (hm : m.observer = some o)

include ho hm

theorem booked_task_tick {task : Task} (hstack : InPlace (.full functions) stack)
    (htask : task.Fits (.full functions) stack) (h : Booked functions before ⟨.eval task, stack, m⟩) :
    Booked functions before (task.tick stack m) := by
  have h := h rfl
  cases task with
  | step site actor =>
    obtain ⟨hsite, hframes⟩ : site.Fits (.full functions) stack ∧ _ := htask
    refine booked_enact fun words m₁ hx ↦ ?_
    obtain ⟨hcount, hlog⟩ := fetchWords_logs ho hm site hx
    have hledger : Config.ledger ⟨.eval (.perform site words actor), stack, m₁⟩ = ⟨openOf stack, m.count + 1⟩ := by
      rw [← hcount]
      rfl
    rw [hledger]
    exact h.add _ (enter?_command hsite hframes hstack m.count) hlog
  | perform site words actor => exact booked_uncounted (uncounted_outset site actor words) h (ledger_outset site actor)
  | call path caller site actor =>
    obtain ⟨hsite, -⟩ : site.Fits (.full functions) stack ∧ _ := htask
    dsimp only [Task.tick]
    cases Dict.find? path m.functions with
    | none => nofun
    | some lines =>
      dsimp only
      split
      · nofun
      · refine booked_enact fun _ m₁ hx ↦ ?_
        rw [watchCall_eq ho hm] at hx
        cases hx
        have hlength : site.frames.length = (openOf stack).length := by
          rw [hsite.frames, framesOf_eq hstack, List.length_map]
        refine h.add (.call path caller (site.frames.length + 1)) ?_ (eventsOf_logAfter o _ m)
        change Ledger.enter? functions ⟨openOf stack, m.count⟩ _ = _
        rw [Ledger.enter?, if_pos (congrArg (· + 1) hlength)]
        rfl

theorem booked_pending_tick {p : Pending} {r : Result} (hstack : InPlace (.full functions) (p :: stack))
    (h : Booked functions before ⟨.ret r, p :: stack, m⟩) : Booked functions before (p.tick r stack m) := by
  have h := h rfl
  obtain ⟨hsite, hplace, hstack⟩ := hstack
  cases p with
  | lines path site actor line rest total =>
    obtain ⟨done, hlines, hline, htotal⟩ := hplace
    cases rest with
    | nil =>
      -- all commands of the function were executed
      refine booked_enact fun _ m₁ hx ↦ ?_
      rw [watchReturn_eq ho hm] at hx
      cases hx
      refine h.add (.leave path site.frames.length) ?_ (eventsOf_logAfter o _ m)
      change Ledger.enter? functions ⟨⟨path, site.frames.length + 1, line - 1⟩ :: openOf stack, m.count⟩ _ = _
      have hall : (Dict.find? path functions).map List.length = some (line - 1) := by
        rw [show Dict.find? path functions = _ from hlines, Option.map_some, List.append_nil, hline, Nat.add_sub_cancel]
      rw [Ledger.enter?]
      dsimp only
      rw [if_pos ⟨rfl, rfl, hall⟩]
      rfl
    | cons command rest => exact fun _ ↦ h
  | calls site actor paths total => cases paths <;> exact fun _ ↦ h
  | each site words stores actor rest last =>
    exact booked_uncounted (uncounted_applyStores site actor stores r) h fun _ ↦ ledger_nextActor site words stores _ rest
  | roots paths => cases paths <;> exact fun _ ↦ h

end Booked

theorem Booked.tick {functions : Dict (List String)} {before : List Event} {o : Observer} (ho : Attentive o)
    {c : Config} (hobserver : c.machine.observer = some o) (hsited : Sited (.full functions) c)
    (h : Booked functions before c) : Booked functions before (tick c) := by
  rcases c with ⟨control, stack, m⟩
  cases control with
  | eval task => exact booked_task_tick ho hobserver hsited.stack hsited.control h
  | ret r =>
    cases stack with
    | nil => exact h
    | cons p stack => exact booked_pending_tick ho hobserver hsited.stack h
  | stop s => cases stack <;> exact h

theorem Errand.booked {e : Errand} (he : e.callsFunctions = true) {m : Machine} {o : Observer} (ho : Attentive o)
    (hm : m.observer = some o) (n : Nat) :
    Booked m.functions (eventsOf m.log) (tick^[n] (e.start m)) ∧
      (tick^[n] (e.start m)).machine.observer = some o := by
  induction n with
  | zero =>
    refine ⟨fun _ ↦ ⟨[], (List.append_nil _).symm, ?_⟩, hm⟩
    cases e with
    | exec command => cases he
    | _ => rfl
  | succ n ih =>
    rw [Function.iterate_succ_apply']
    refine ⟨ih.1.tick ho ih.2 (e.sited he m n), ?_⟩
    have hsetup := keeps_tick allowsCounters_sameSetup allowsAll_sameSetup (tick^[n] (e.start m))
    exact (congrArg Setup.observer hsetup).trans ih.2

/-- The events of a run are a well-nested account of it. Let an observer be told everything and let a run go on
to its end. Then the events that the run adds to the log fit the ledger one after the other: each return closes
the latest open call, which is of the same function and one level deeper, after all its commands; each command
has the next count and the next line of the innermost open call, whose function it names, and its depth is the
number of open calls. At the end no call is open, and the commands add up to the count of the run. -/
theorem run_recounted {m m' : Machine} {o : Observer} (ho : Attentive o) (hm : m.observer = some o) {path : String}
    {cancelled : Bool} (h : m.run path cancelled = (.ok (), m')) :
    ∃ events, eventsOf m'.log = eventsOf m.log ++ events ∧
      recount m.functions events = some { calls := [], count := m'.count } := by
  obtain ⟨-, n, hverdict, hm'⟩ := Errand.exists_tick (e := .run path cancelled) h nofun
  have hbooked := ((Errand.run path cancelled).booked rfl ho hm n).1 (stopped_of_verdict hverdict)
  generalize tick^[n] ((Errand.run path cancelled).start m) = c at hverdict hm' hbooked
  rcases c with ⟨control, stack, m₁⟩
  cases hm'
  cases control with
  | eval task => cases stack <;> cases hverdict
  | stop s => cases stack <;> cases hverdict
  | ret r =>
    cases stack with
    | nil => exact hbooked
    | cons p stack => cases hverdict

/-- A function that calls another one for each of two entities, and then a tag. -/
def caller : Machine :=
  { functions := [("a:f", ["summon marker 0 0 0", "summon marker 0 0 0", "execute as @e run function a:g",
      "function #a:t"]), ("a:g", ["say b"])]
    tags := [("a:t", ["a:g"])]
    observer := some {} }

theorem run_recounted_caller :
    caller.observer = some {} ∧ Attentive {} ∧ (caller.run "a:f").1.toBool = true ∧ (caller.run "a:f").2.count = 7 ∧
      ∃ events, eventsOf (caller.run "a:f").2.log = eventsOf caller.log ++ events ∧
        recount caller.functions events = some { calls := [], count := (caller.run "a:f").2.count } := by
  have hend : (caller.run "a:f").1.toBool = true := by decide +kernel
  have hok : (caller.run "a:f").1 = .ok () := by
    cases h : (caller.run "a:f").1 with
    | ok _ => rfl
    | error s =>
      rw [h] at hend
      cases hend
  exact ⟨rfl, ⟨rfl, fun _ ↦ rfl⟩, hend, by decide +kernel,
    run_recounted ⟨rfl, fun _ ↦ rfl⟩ rfl (Prod.ext hok rfl)⟩

end CommandPack.Machine
