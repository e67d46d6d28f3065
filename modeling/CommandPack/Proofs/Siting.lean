import Mathlib
import CommandPack.Proofs.Stepping

/-!
Where a run stands. Whatever is executed or waits knows the active calls and the command that the innermost
of them is at, so a fault points at the command that failed, and no call is deeper than the machine allows.
-/

namespace CommandPack.Machine

open Stateful

variable {c : Config} {p : Pending} {e : Errand} {kept stack : List Pending} {m : Machine}
  {functions : Dict (List String)} {α β : Type}

def LogEntry.event? : LogEntry → Option Event
  | .event e => some e
  | .refused _ => none

def eventsOf (log : Array LogEntry) : List Event := log.toList.filterMap LogEntry.event?

theorem eventsOf_logAfter (o : Observer) (event : Event) (m : Machine) :
    eventsOf (logAfter o event m) = eventsOf m.log ++ [event] := by
  unfold logAfter
  split <;> simp [eventsOf, LogEntry.event?]

/-- The observer halted the run when it was told about a call. -/
def Fault.IsRefusedCall (f : Fault) (log : Array LogEntry) : Prop :=
  f.cause = .halted ∧ ∃ function caller depth, (eventsOf log).getLast? = some (.call function caller depth)

def Raises (E : Stop → Prop) (a : Action α) : Prop :=
  ∀ ⦃m : Machine⦄ ⦃s : Stop⦄, (a m).1 = .error s → E s

/-- A fault at a site is reported with its location and its calls. -/
def Stop.IsAt (site : Site) (s : Stop) : Prop :=
  ∀ f, s = .fault f → f.location = site.location ∧ f.stack = site.frames

section Raises

variable {E : Stop → Prop} {site : Site}

theorem raises_pure (x : α) : Raises E (pure x : Action α) := by
  rintro _ _ ⟨⟩

theorem raises_get : Raises E get := by
  rintro _ _ ⟨⟩

theorem raises_bind {x : Action α} {f : α → Action β} (hx : Raises E x) (hf : ∀ a, Raises E (f a)) :
    Raises E (x >>= f) := by
  intro m s h
  rw [bind_apply] at h
  rcases hm : x m with ⟨s' | a, m₁⟩
  · rw [hm] at h
    cases h
    exact hx (congrArg Prod.fst hm)
  · rw [hm] at h
    exact hf a h

theorem raises_watch (hE : E (.fault ⟨.halted, site.location, site.frames⟩)) (hcrash : ∀ text, E (.crash text))
    (wants : Machine → Observer → Bool) (event : Machine → Event) : Raises E (watch wants site event) := by
  refine raises_bind raises_get fun m ↦ ?_
  cases m.observer with
  | none => exact raises_pure _
  | some o =>
    dsimp only
    split
    · intro m s h
      rw [notify_eq] at h
      cases hverdict : o.verdict (logAfter o _ m) <;> rw [hverdict] at h <;> cases h
      · exact hE
      · exact hcrash _
    · exact raises_pure _

theorem isAt_fault (site : Site) (cause : Cause) : Stop.IsAt site (.fault ⟨cause, site.location, site.frames⟩) := by
  rintro _ ⟨⟩
  exact ⟨rfl, rfl⟩

theorem raises_watch_isAt (wants : Machine → Observer → Bool) (event : Machine → Event) :
    Raises (Stop.IsAt site) (watch wants site event) :=
  raises_watch (isAt_fault site _) (fun _ ↦ nofun) wants event

theorem raises_watchReturn (path : String) : Raises (Stop.IsAt site) (watchReturn site path) :=
  raises_watch_isAt (fun _ o ↦ o.settings.returns) _

theorem raises_fetchWords : Raises (Stop.IsAt site) (fetchWords site) := by
  refine raises_bind (fun m s h ↦ ?_) fun _ ↦
    raises_bind (raises_watch_isAt (fun m o ↦ o.settings.mode.wants m.count) _) fun _ ↦ ?_
  · rw [countCommand_eq] at h
    change countOutcome site m = _ at h
    unfold countOutcome at h
    split at h
    · cases h
      exact isAt_fault site _
    · split at h <;> cases h
      exact isAt_fault site _
  · split
    · rintro m _ ⟨⟩
      exact isAt_fault site _
    · exact raises_pure _

theorem outset_of_setsBudget {words : List String} (hwords : setsBudget words = true) :
    ∃ value, ∀ (site : Site) (actor : Actor) (m : Machine), outset site actor words m =
      match Decimal.readInt? 64 value with
      | some n => (.ok (.done ⟨1, true⟩),
          { m with maxCommands := n, rules := Dict.insert "maxCommandChainLength" value m.rules })
      | none => (.error (.fault ⟨.invalidRule value "maxCommandChainLength", site.location, site.frames⟩), m) := by
  obtain ⟨value, rest, rfl⟩ : ∃ value rest, words = "gamerule" :: "maxCommandChainLength" :: value :: rest := by
    match words with
    | word :: name :: value :: rest =>
      simp only [setsBudget, Bool.and_eq_true, beq_iff_eq] at hwords
      obtain ⟨rfl, rfl⟩ := hwords
      exact ⟨value, rest, rfl⟩
    | [] | [_] | [_, _] => cases hwords
  refine ⟨value, fun site actor m ↦ ?_⟩
  have hsimple : outset site actor ("gamerule" :: "maxCommandChainLength" :: value :: rest) =
      Outset.done <$> gamerule site ("maxCommandChainLength" :: value :: rest) := by
    simp [outset, simple]
  rw [hsimple, map_apply]
  dsimp only [gamerule]
  rw [if_pos rfl]
  cases Decimal.readInt? 64 value <;> rfl

theorem blames_isAt (site : Site) : Blames (Stop.IsAt site) site := fun cause _ ↦ isAt_fault site cause

theorem raises_outset (actor : Actor) (words : List String) : Raises (Stop.IsAt site) (outset site actor words) := by
  intro m s h
  cases hwords : setsBudget words with
  | false => exact (acts_outset (blames_isAt site) allowsAll_true actor hwords).error h
  | true =>
    obtain ⟨value, hrule⟩ := outset_of_setsBudget hwords
    rw [hrule] at h
    cases hvalue : Decimal.readInt? 64 value <;> rw [hvalue] at h <;> cases h
    exact isAt_fault site _

theorem raises_applyStores (actor : Actor) (stores : List Store) (r : Result) :
    Raises (Stop.IsAt site) (applyStores stores site actor r) :=
  fun _ _ ↦ (acts_applyStores (blames_isAt site) actor allowsAll_true stores r).error

end Raises

theorem isRefusedCall_of_watchCall {site : Site} {path caller : String} {f : Fault}
    (h : (watchCall site path caller m).1 = .error (.fault f)) :
    f.stack = site.frames ∧ f.IsRefusedCall (watchCall site path caller m).2.log := by
  simp only [watchCall, bind_apply, get_apply, andThen_ok] at h ⊢
  cases hobserver : m.observer with
  | none =>
    rw [hobserver] at h
    cases h
  | some o =>
    rw [hobserver] at h
    dsimp only at h ⊢
    cases hcalls : o.settings.calls with
    | false =>
      rw [hcalls] at h
      cases h
    | true =>
      rw [hcalls, if_pos rfl, notify_eq] at h
      rw [if_pos rfl, notify_eq]
      cases hverdict : o.verdict (logAfter o (.call path caller site.frames.length) m) <;>
        rw [hverdict] at h <;> cases h
      refine ⟨rfl, rfl, path, caller, site.frames.length, ?_⟩
      rw [eventsOf_logAfter]
      simp

/-- The command of a location stands at its line of its function. Lines count from 1. -/
def Location.IsIn (functions : Dict (List String)) (l : Location) : Prop :=
  ∃ commands i, Dict.find? l.function functions = some commands ∧ l.line = ((i + 1 : Nat) : Int) ∧
    commands[i]? = some l.command

/-- A location is where the innermost of the active calls is, and unset if there is none. -/
def Locates (functions : Dict (List String)) (l : Location) : List Frame → Prop
  | [] => l = {}
  | frame :: _ => frame = ⟨l.function, l.line⟩ ∧ l.IsIn functions

/-- What is known about all sites of a run, and about those at which commands begin. -/
structure Chart where
  functions : Dict (List String)
  Knows : Site → Prop
  Begins : Site → Prop
  line {path command : String} {line : Int} (frames : List Frame)
    (h : Location.IsIn functions ⟨path, line, command⟩) :
    Knows ⟨⟨path, line, command⟩, ⟨path, line⟩ :: frames⟩ ∧ Begins ⟨⟨path, line, command⟩, ⟨path, line⟩ :: frames⟩

/-- Commands begin in functions only, and sites know where the innermost call is. -/
def Chart.full (functions : Dict (List String)) : Chart where
  functions
  Knows site := Locates functions site.location site.frames
  Begins site := site.frames ≠ []
  line _ h := ⟨⟨rfl, h⟩, List.cons_ne_nil _ _⟩

def Chart.blank (functions : Dict (List String)) : Chart :=
  ⟨functions, fun _ ↦ True, fun _ ↦ True, fun _ _ ↦ ⟨trivial, trivial⟩⟩

def framesOf (stack : List Pending) : List Frame := stack.filterMap Pending.frame?

/-- A site amid what waits knows the active calls. -/
structure Site.Fits (K : Chart) (stack : List Pending) (site : Site) : Prop where
  frames : site.frames = framesOf stack
  knows : K.Knows site

def Pending.site : Pending → Site
  | lines _ site _ _ _ _ => site
  | calls site _ _ _ => site
  | each site _ _ _ _ _ => site
  | roots _ => {}

/-- A call that waits is between the commands it is done with and those that are left. -/
def Pending.IsUnderway (functions : Dict (List String)) : Pending → Prop
  | lines path _ _ line rest total => ∃ done, Dict.find? path functions = some (done ++ rest) ∧
      line = done.length + 1 ∧ total = (done ++ rest).length
  | _ => True

/-- All that waits fits what is below it. -/
def InPlace (K : Chart) : List Pending → Prop
  | [] => True
  | p :: stack => p.site.Fits K stack ∧ p.IsUnderway K.functions ∧ InPlace K stack

/-- A task knows where it is executed, and a call who makes it. -/
def Task.Fits (K : Chart) (stack : List Pending) : Task → Prop
  | step site _ => site.Fits K stack ∧ K.Begins site
  | perform site _ _ => site.Fits K stack
  | call _ caller site _ => site.Fits K stack ∧ caller = site.location.function

/-- A fault is reported with the active calls and, unless a call was refused, with what is known of its site. -/
def Stop.Fits (K : Chart) (stack : List Pending) (log : Array LogEntry) (s : Stop) : Prop :=
  ∀ f, s = .fault f → f.stack = framesOf stack ∧ (f.IsRefusedCall log ∨ K.Knows ⟨f.location, f.stack⟩)

def Control.Fits (K : Chart) (stack : List Pending) (log : Array LogEntry) : Control → Prop
  | eval task => task.Fits K stack
  | ret _ => True
  | stop s => s.Fits K stack log

/-- All parts of a configuration know where the run stands. -/
structure Sited (K : Chart) (c : Config) : Prop where
  same : c.machine.functions = K.functions
  stack : InPlace K c.stack
  control : c.control.Fits K c.stack c.machine.log

section Sited

variable {K : Chart} {site : Site}

theorem Site.Fits.stop (h : site.Fits K stack) {s : Stop} (hs : s.IsAt site) (log : Array LogEntry) :
    s.Fits K stack log := by
  intro f hf
  obtain ⟨hlocation, hstack⟩ := hs f hf
  rw [hlocation, hstack]
  exact ⟨h.frames, .inr h.knows⟩

theorem Site.Fits.push (h : site.Fits K stack) (hp : p.frame? = none) : site.Fits K (p :: stack) := by
  refine ⟨?_, h.knows⟩
  rw [h.frames, framesOf, framesOf, List.filterMap_cons_none hp]

theorem sited_enact {held : List Pending} {a : Action α} {next : α → Control × List Pending}
    (hm : m.functions = K.functions) (ha : Keeps SameSetup a) (hheld : InPlace K held)
    (hstop : ∀ s, (a m).1 = .error s → s.Fits K held (a m).2.log)
    (hnext : ∀ x log, InPlace K (next x).2 ∧ (next x).1.Fits K (next x).2 log) : Sited K (enact held a next m) := by
  have hfunctions : (a m).2.functions = K.functions := (congrArg Setup.functions (ha m)).trans hm
  unfold enact
  rcases h : a m with ⟨s | x, m₁⟩ <;> rw [h] at hfunctions hstop
  · exact ⟨hfunctions, hheld, hstop s rfl⟩
  · exact ⟨hfunctions, (hnext x m₁.log).1, (hnext x m₁.log).2⟩

theorem Site.Fits.enact (h : site.Fits K stack) {a : Action α} {next : α → Control × List Pending}
    (hm : m.functions = K.functions) (ha : Keeps SameSetup a) (hraises : Raises (Stop.IsAt site) a)
    (hstack : InPlace K stack)
    (hnext : ∀ x log, InPlace K (next x).2 ∧ (next x).1.Fits K (next x).2 log) : Sited K (enact stack a next m) :=
  sited_enact hm ha hstack (fun _ hs ↦ h.stop (hraises hs) _) hnext

theorem Site.Fits.nextActor (h : site.Fits K stack) (hstack : InPlace K stack)
    (words : List String) (stores : List Store) (last : Result) (actors : List Actor) (log : Array LogEntry) :
    InPlace K (nextActor site words stores last stack actors).2 ∧
      (nextActor site words stores last stack actors).1.Fits K
        (nextActor site words stores last stack actors).2 log := by
  cases actors with
  | nil => exact ⟨hstack, trivial⟩
  | cons actor rest => exact ⟨⟨h, trivial, hstack⟩, h.push rfl⟩

theorem Site.Fits.outset (h : site.Fits K stack) (hstack : InPlace K stack) (actor : Actor)
    (o : Outset) (log : Array LogEntry) :
    InPlace K (o.next site actor stack).2 ∧
      (o.next site actor stack).1.Fits K (o.next site actor stack).2 log := by
  cases o with
  | done r => exact ⟨hstack, trivial⟩
  | call path => exact ⟨hstack, h, rfl⟩
  | calls paths => exact ⟨⟨h, trivial, hstack⟩, trivial⟩
  | each chain words => exact h.nextActor hstack words chain.stores .failed chain.actors log

theorem sited_task_tick {task : Task} (hm : m.functions = K.functions) (hstack : InPlace K stack)
    (htask : task.Fits K stack) : Sited K (task.tick stack m) := by
  cases task with
  | step site actor =>
    obtain ⟨hsite, -⟩ : site.Fits K stack ∧ _ := htask
    exact hsite.enact hm (keeps_fetchWords allowsCounters_sameSetup site) raises_fetchWords hstack
      fun _ _ ↦ ⟨hstack, hsite⟩
  | perform site words actor =>
    have hsite : site.Fits K stack := htask
    exact hsite.enact hm (keeps_outset allowsAll_sameSetup site actor words) (raises_outset actor words) hstack
      (hsite.outset hstack actor)
  | call path caller site actor =>
    obtain ⟨hsite, -⟩ : site.Fits K stack ∧ _ := htask
    dsimp only [Task.tick]
    cases hlines : Dict.find? path m.functions with
    | none => exact ⟨hm, hstack, hsite.stop (isAt_fault site _) _⟩
    | some lines =>
      dsimp only
      split
      · exact ⟨hm, hstack, hsite.stop (isAt_fault site _) _⟩
      · -- the new call is at none of its lines yet
        have hplace : InPlace K (.lines path site actor 1 lines lines.length :: stack) :=
          ⟨hsite, ⟨[], hm ▸ hlines, rfl, rfl⟩, hstack⟩
        refine sited_enact hm (keeps_watchCall allowsCounters_sameSetup _ path caller) hplace (fun s hs f hf ↦ ?_)
          fun _ _ ↦ ⟨hplace, trivial⟩
        obtain ⟨hframes, hrefused⟩ := isRefusedCall_of_watchCall (hf ▸ hs)
        refine ⟨?_, .inl hrefused⟩
        rw [hframes, hsite.frames]
        rfl

theorem sited_pending_tick {r : Result} (hm : m.functions = K.functions) (hstack : InPlace K (p :: stack)) :
    Sited K (p.tick r stack m) := by
  obtain ⟨hsite, hplace, hstack⟩ := hstack
  cases p with
  | lines path site actor line rest total =>
    obtain ⟨done, hlines, hline, htotal⟩ := hplace
    cases rest with
    | nil =>
      exact hsite.enact hm (keeps_watchReturn allowsCounters_sameSetup site path) (raises_watchReturn path) hstack
        fun _ _ ↦ ⟨hstack, trivial⟩
    | cons command rest =>
      have hlines' : Dict.find? path K.functions = some ((done ++ [command]) ++ rest) := by
        rw [hlines, List.append_assoc, List.singleton_append]
      have hplace' : InPlace K (.lines path site actor (line + 1) rest total :: stack) := by
        refine ⟨hsite, ⟨done ++ [command], hlines', ?_, ?_⟩, hstack⟩
        · rw [hline, List.length_append, List.length_singleton]
        · rw [htotal, List.append_assoc, List.singleton_append]
      have hin : Location.IsIn K.functions ⟨path, line, command⟩ :=
        ⟨done ++ command :: rest, done.length, hlines, congrArg _ hline, by simp⟩
      obtain ⟨hknows, hbegins⟩ := K.line site.frames hin
      refine ⟨hm, hplace', ⟨?_, hknows⟩, hbegins⟩
      change (⟨path, (line : Int)⟩ : Frame) :: site.frames = ⟨path, ((line + 1 : Nat) : Int) - 1⟩ :: framesOf stack
      rw [show ((line + 1 : Nat) : Int) - 1 = line by omega]
      exact congrArg _ hsite.frames
  | calls site actor paths total =>
    cases paths with
    | nil => exact ⟨hm, hstack, trivial⟩
    | cons path paths =>
      exact ⟨hm, ⟨hsite, trivial, hstack⟩, Site.Fits.push (p := .calls site actor paths total) hsite rfl, rfl⟩
  | each site words stores actor rest last =>
    refine Site.Fits.enact hsite hm ?_ (raises_applyStores actor stores r) hstack
      fun _ ↦ Site.Fits.nextActor hsite hstack words stores _ rest
    exact keeps_applyStores site actor allowsAll_sameSetup stores r
  | roots paths =>
    cases paths with
    | nil => exact ⟨hm, hstack, trivial⟩
    | cons path paths =>
      exact ⟨hm, ⟨hsite, trivial, hstack⟩, Site.Fits.push (p := .roots paths) hsite rfl, rfl⟩

theorem Sited.tick (h : Sited K c) : Sited K (tick c) := by
  rcases c with ⟨control, stack, m⟩
  cases control with
  | eval task => exact sited_task_tick h.same h.stack h.control
  | ret r =>
    cases stack with
    | nil => exact h
    | cons p stack => exact sited_pending_tick h.same h.stack
  | stop s => cases stack <;> exact h

theorem Sited.iterate_tick (h : Sited K c) (n : Nat) : Sited K (Machine.tick^[n] c) :=
  Function.Iterate.rec (Sited K) h (fun _ ↦ Sited.tick) n

/-- A single command has no function to be in, so a chart has to allow it. -/
theorem Errand.sited_start (hm : m.functions = K.functions) (hknows : K.Knows {})
    (hexec : ∀ command cancelled, e = .exec command cancelled → K.Knows ⟨⟨"", 1, command⟩, []⟩ ∧ K.Begins ⟨⟨"", 1, command⟩, []⟩) :
    Sited K (e.start m) := by
  cases e with
  | exec command cancelled =>
    obtain ⟨hcommand, hbegins⟩ := hexec command cancelled rfl
    exact ⟨hm, trivial, ⟨rfl, hcommand⟩, hbegins⟩
  | _ => exact ⟨hm, ⟨⟨rfl, hknows⟩, trivial, trivial⟩, trivial⟩

end Sited

def Errand.callsFunctions : Errand → Bool
  | exec .. => false
  | _ => true

theorem Errand.sited (he : e.callsFunctions = true) (m : Machine) (n : Nat) :
    Sited (.full m.functions) (tick^[n] (e.start m)) := by
  refine (Errand.sited_start rfl rfl fun command cancelled hexec ↦ ?_).iterate_tick n
  rw [hexec] at he
  cases he

/-- What a tick does to the calls that wait. -/
inductive Shift (c c' : Config) : Prop where
  /-- No call is made and none goes on; something may end. -/
  | other {kept : List Pending} (hkept : kept <:+ c.stack)
      (hstack : c'.stack = kept ∨ ∃ p, p.frame? = none ∧ c'.stack = p :: kept)
  | call {path caller : String} {site : Site} {actor : Actor} (lines : List String)
      (hcontrol : c.control = .eval (.call path caller site actor))
      (hroom : site.frames.length < c.machine.maxDepth.toNat)
      (hstack : c'.stack = .lines path site actor 1 lines lines.length :: c.stack)
  | line {path command : String} {site : Site} {actor : Actor} {line total : Nat} {rest : List String}
      {below : List Pending} (hbefore : c.stack = .lines path site actor line (command :: rest) total :: below)
      (hcontrol : c'.control = .eval (.step ⟨⟨path, line, command⟩, ⟨path, line⟩ :: site.frames⟩ actor))
      (hstack : c'.stack = .lines path site actor (line + 1) rest total :: below)

theorem shift_same {c' : Config} (h : c'.stack = c.stack) : Shift c c' := .other (List.suffix_refl _) (.inl h)

theorem shift_enact {a : Action α} {next : α → Control × List Pending} (hkept : kept <:+ c.stack)
    (hnext : ∀ x, (next x).2 = kept ∨ ∃ p, p.frame? = none ∧ (next x).2 = p :: kept) :
    Shift c (enact kept a next m) := by
  unfold enact
  rcases a m with ⟨s | x, m₁⟩
  · exact .other hkept (.inl rfl)
  · exact .other hkept (hnext x)

theorem nextActor_stack (site : Site) (words : List String) (stores : List Store) (last : Result)
    (actors : List Actor) : (nextActor site words stores last stack actors).2 = stack ∨
      ∃ p, p.frame? = none ∧ (nextActor site words stores last stack actors).2 = p :: stack := by
  cases actors with
  | nil => exact .inl rfl
  | cons actor rest => exact .inr ⟨.each site words stores actor rest last, rfl, rfl⟩

theorem outset_stack (site : Site) (actor : Actor) (o : Outset) : (o.next site actor stack).2 = stack ∨
    ∃ p, p.frame? = none ∧ (o.next site actor stack).2 = p :: stack := by
  cases o with
  | done r => exact .inl rfl
  | call path => exact .inl rfl
  | calls paths => exact .inr ⟨.calls site actor paths paths.length, rfl, rfl⟩
  | each chain words => exact nextActor_stack site words chain.stores .failed chain.actors

theorem shift_task (task : Task) : Shift ⟨.eval task, stack, m⟩ (task.tick stack m) := by
  cases task with
  | step site actor => exact shift_enact (List.suffix_refl _) fun _ ↦ .inl rfl
  | perform site words actor => exact shift_enact (List.suffix_refl _) (outset_stack site actor)
  | call path caller site actor =>
    dsimp only [Task.tick]
    cases Dict.find? path m.functions with
    | none => exact shift_same rfl
    | some lines =>
      dsimp only
      split
      · exact shift_same rfl
      · refine .call lines rfl (not_le.1 ‹_›) ?_
        unfold enact
        rcases watchCall ⟨site.location, ⟨path, 0⟩ :: site.frames⟩ path caller m with ⟨s | x, m₁⟩ <;> rfl

theorem shift_pending (p : Pending) (r : Result) : Shift ⟨.ret r, p :: stack, m⟩ (p.tick r stack m) := by
  have hpop : stack <:+ p :: stack := List.suffix_cons p stack
  cases p with
  | lines path site actor line rest total =>
    cases rest with
    | nil => exact shift_enact hpop fun _ ↦ .inl rfl
    | cons command rest => exact .line rfl rfl rfl
  | calls site actor paths total =>
    cases paths with
    | nil => exact .other hpop (.inl rfl)
    | cons path paths => exact .other hpop (.inr ⟨.calls site actor paths total, rfl, rfl⟩)
  | each site words stores actor rest last =>
    exact shift_enact hpop fun _ ↦ nextActor_stack site words stores _ rest
  | roots paths =>
    cases paths with
    | nil => exact .other hpop (.inl rfl)
    | cons path paths => exact .other hpop (.inr ⟨.roots paths, rfl, rfl⟩)

theorem shift_tick (c : Config) : Shift c (tick c) := by
  rcases c with ⟨control, stack, m⟩
  cases control with
  | eval task => exact shift_task task
  | ret r =>
    cases stack with
    | nil => exact shift_same rfl
    | cons p stack => exact shift_pending p r
  | stop s => cases stack <;> exact shift_same rfl

theorem framesOf_suffix {s s' : List Pending} (h : s <:+ s') : framesOf s <:+ framesOf s' := by
  obtain ⟨above, rfl⟩ := h
  exact ⟨framesOf above, (List.filterMap_append).symm⟩

theorem frames_tick_le {K : Chart} (hsited : Sited K c) (h : c.frames.length ≤ c.machine.maxDepth.toNat) :
    (tick c).frames.length ≤ c.machine.maxDepth.toNat := by
  cases shift_tick c with
  | other hkept hstack =>
    refine le_trans ?_ h
    have hle := (framesOf_suffix hkept).length_le
    rcases hstack with hstack | ⟨p, hp, hstack⟩ <;> rw [Config.frames, hstack]
    · exact hle
    · rwa [List.filterMap_cons_none hp]
  | @call path caller site actor lines hcontrol hroom hstack =>
    have hfits := hsited.control
    rw [hcontrol] at hfits
    have hframes : site.frames = framesOf c.stack := hfits.1.frames
    rw [hframes] at hroom
    rw [Config.frames, hstack]
    exact hroom
  | line hbefore hcontrol hstack =>
    rw [Config.frames, hbefore] at h
    rw [Config.frames, hstack]
    exact h

theorem Errand.frames_le (e : Errand) (m : Machine) (k : Nat) :
    ((tick^[k] (e.start m)).frames.length : Int) ≤ max m.maxDepth 0 := by
  have hstart : Sited (.blank m.functions) (e.start m) :=
    Errand.sited_start rfl trivial fun _ _ _ ↦ ⟨trivial, trivial⟩
  have hdepth : (tick^[k] (e.start m)).frames.length ≤ m.maxDepth.toNat ∧
      (tick^[k] (e.start m)).machine.maxDepth = m.maxDepth := by
    induction k with
    | zero => cases e <;> exact ⟨Nat.zero_le _, rfl⟩
    | succ k ih =>
      obtain ⟨hle, hm⟩ := ih
      rw [Function.iterate_succ_apply']
      refine ⟨hm ▸ frames_tick_le (hstart.iterate_tick k) (hm ▸ hle), ?_⟩
      exact (congrArg Setup.maxDepth (keeps_tick allowsCounters_sameSetup allowsAll_sameSetup _)).trans hm
  have hle := hdepth.1
  omega

end CommandPack.Machine
