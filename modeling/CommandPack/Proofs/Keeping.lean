import Mathlib
import CommandPack.Machine.Run
import CommandPack.Proofs.Stateful

/-!
What actions leave as it is. An action keeps a relation if the machine before it and the machine
after it are related, whether it stops or not.
-/

namespace CommandPack.Machine

open Stateful

variable {ε α β : Type} {R : Machine → Machine → Prop}

def Keeps (R : Machine → Machine → Prop) (a : ExceptT ε (StateM Machine) α) : Prop :=
  ∀ m, R m (a m).2

def AllowsNewObjective (R : Machine → Machine → Prop) : Prop :=
  ∀ (m : Machine) name, R m { m with objectives := m.objectives ++ [name] }

/-- Storages and block entities without data may be added. -/
structure AllowsNewData (R : Machine → Machine → Prop) : Prop where
  storage (m : Machine) (id : String) (h : Dict.has id m.storage = false) :
    R m { m with storage := Dict.insert id [] m.storage }
  block (m : Machine) (key : String) (h : Dict.has key m.blocks = false) :
    R m { m with blocks := Dict.insert key [] m.blocks }

def withoutObjective (m : Machine) (name : String) : Machine :=
  { m with
    objectives := m.objectives.filter (· != name)
    scores := Dict.erase name m.scores
    entities := m.entities.map fun (e : Entity) ↦
      if e.alive then { e with scores := Dict.erase name e.scores } else e }

/-- Objectives may come and go, and scores may change in those that there are. -/
structure AllowsScores (R : Machine → Machine → Prop) : Prop where
  newObjective : AllowsNewObjective R
  withoutObjective (m : Machine) (name : String) : R m (m.withoutObjective name)
  setScore (m : Machine) (h : Holder) (v : Int32) {objective : String} (ho : objective ∈ m.objectives) :
    R m (setScore m h objective v)
  resetScore (m : Machine) (h : Holder) (objective : String) : R m (resetScore m h objective)

def AllowsData (R : Machine → Machine → Prop) : Prop :=
  ∀ (m : Machine) (place : Place) (fields : Dict Tag), R m (place.save fields m)

theorem AllowsData.newData (h : AllowsData R) : AllowsNewData R :=
  ⟨fun m id _ ↦ h m (.storage id) [], fun m key _ ↦ h m (.block key) []⟩

/-- Entities without scores may come, and all may go and change but for their numbers and scores. -/
structure AllowsEntities (R : Machine → Machine → Prop) : Prop where
  lastEntity (m : Machine) (id : Nat) : R m { m with lastEntity := id }
  join (m : Machine) {e : Entity} (hscores : e.scores = []) : R m { m with entities := m.entities ++ [e] }
  remove (m : Machine) (ids : List Nat) : R m { m with
    entities := m.entities.map fun e ↦ if ids.contains e.id then { e with alive := false } else e }
  update (m : Machine) (id : Nat) {f : Entity → Entity}
    (hf : ∀ e, (f e).id = e.id ∧ (f e).scores = e.scores ∧ (f e).alive = e.alive) : R m (m.updateEntity id f)

def AllowsChat (R : Machine → Machine → Prop) : Prop :=
  ∀ (m : Machine) chat, R m { m with chat }

def AllowsRules (R : Machine → Machine → Prop) : Prop :=
  ∀ (m : Machine) rules maxCommands, R m { m with rules, maxCommands }

/-- A relation that allows all changes of the world of a machine. -/
structure AllowsAll (R : Machine → Machine → Prop) : Prop where
  scores : AllowsScores R
  data : AllowsData R
  entities : AllowsEntities R
  chat : AllowsChat R
  rules : AllowsRules R

theorem AllowsScores.of_all
    (h : ∀ (m : Machine) objectives scores entities, R m { m with objectives, scores, entities }) : AllowsScores R where
  newObjective m _ := h m _ m.scores m.entities
  withoutObjective m _ := h m _ _ _
  setScore m holder v o ho := by
    cases holder
    · exact h m m.objectives _ m.entities
    · exact h m m.objectives m.scores _
  resetScore m holder objective := by
    cases holder with
    | player name =>
      simp only [CommandPack.Machine.resetScore]
      split
      · exact h m m.objectives _ m.entities
      · exact h m m.objectives m.scores m.entities
    | entity id => exact h m m.objectives m.scores _

theorem AllowsData.of_all (h : ∀ (m : Machine) storage blocks entities, R m { m with storage, blocks, entities }) :
    AllowsData R := by
  intro m place fields
  cases place
  · exact h m _ m.blocks m.entities
  · exact h m m.storage _ m.entities
  · exact h m m.storage m.blocks _

theorem AllowsEntities.of_all (h : ∀ (m : Machine) entities lastEntity, R m { m with entities, lastEntity }) :
    AllowsEntities R :=
  ⟨fun m _ ↦ h m m.entities _, fun m _ _ ↦ h m _ m.lastEntity, fun m _ ↦ h m _ m.lastEntity,
    fun m _ _ _ ↦ h m _ m.lastEntity⟩

theorem Keeps.of_eq {a : ExceptT ε (StateM Machine) α} (h : Keeps R a) {m m' : Machine} {x : Except ε α}
    (hm : a m = (x, m')) : R m m' := by
  have hkept := h m
  rwa [hm] at hkept

theorem keeps_modify {f : Machine → Machine} (h : ∀ m, R m (f m)) :
    Keeps R (modify f : ExceptT ε (StateM Machine) PUnit) := h

section Combinators

variable [IsPreorder Machine R]

theorem keeps_pure {a : α} : Keeps R (pure a : ExceptT ε (StateM Machine) α) :=
  fun m ↦ refl_of R m

theorem keeps_fault (site : Site) (cause : Cause) : Keeps R (fault site cause : Action α) :=
  fun m ↦ refl_of R m

theorem keeps_get : Keeps R (get : ExceptT ε (StateM Machine) Machine) := fun m ↦ refl_of R m

theorem keeps_bind {x : ExceptT ε (StateM Machine) α} {f : α → ExceptT ε (StateM Machine) β}
    (hx : Keeps R x) (hf : ∀ a, Keeps R (f a)) : Keeps R (x >>= f) := by
  intro m
  have hm := hx m
  rw [bind_apply]
  rcases h : x m with ⟨e | a, m₁⟩
  · rwa [h] at hm
  · rw [h] at hm
    exact trans_of R hm (hf a m₁)

theorem keeps_forIn {γ : Type} (l : List γ) (b : β) {f : γ → β → Action (ForInStep β)}
    (h : ∀ c b, Keeps R (f c b)) : Keeps R (forIn l b f) := by
  induction l generalizing b with
  | nil => exact keeps_pure
  | cons c l ih =>
    rw [List.forIn_cons]
    refine keeps_bind (h c b) fun r ↦ ?_
    cases r with
    | done b => exact keeps_pure
    | yield b => exact ih b

end Combinators

section Runs

def logAfter (o : Observer) (event : Event) (m : Machine) : Array LogEntry :=
  if o.intrudes (m.log.push (.event event)) && m.running then (m.log.push (.event event)).push (.refused .busy)
  else m.log.push (.event event)

def Verdict.effect (site : Site) : Verdict → Except Stop Unit
  | proceed => .ok ()
  | halt => .error (.fault ⟨.halted, site.location, site.frames⟩)
  | crash text => .error (.crash text)

theorem notify_eq (o : Observer) (site : Site) (event : Event) (m : Machine) :
    notify o site event m =
      ((o.verdict (logAfter o event m)).effect site, { m with log := logAfter o event m }) := by
  have hverdict (m : Machine) : (do
      match o.verdict (← get).log with
      | .proceed => return
      | .halt => fault site .halted
      | .crash text => throw (.crash text) : Action Unit) m = ((o.verdict m.log).effect site, m) := by
    simp only [bind_apply, get_apply, andThen_ok]
    cases o.verdict m.log <;> rfl
  simp only [notify, logAfter, bind_apply, modify_apply, get_apply, andThen_ok, begin]
  cases hintrudes : o.intrudes (m.log.push (.event event)) <;> cases hrunning : m.running <;>
    simp only [Bool.false_eq_true, if_true, if_false, Bool.and_true, Bool.and_false]
  all_goals exact hverdict _

def countOutcome (site : Site) (m : Machine) : Except Stop Unit :=
  if m.maxCommands > 0 ∧ ((m.count + 1 : Nat) : Int) > m.maxCommands then
    .error (.fault ⟨.budget m.maxCommands, site.location, site.frames⟩)
  else if m.checkInterval > 0 ∧ ((m.count + 1 : Nat) : Int) % m.checkInterval = 0 ∧ m.cancelled then
    .error (.fault ⟨.cancelled, site.location, site.frames⟩)
  else .ok ()

theorem countCommand_eq (site : Site) (m : Machine) :
    countCommand site m = (countOutcome site m, { m with count := m.count + 1 }) := by
  simp only [countCommand, countOutcome, bind_apply, modify_apply, get_apply, andThen_ok]
  split
  · rfl
  · split <;> rfl

/-- Tells the observer about an event that it wants to be told about. -/
def watch (wants : Machine → Observer → Bool) (site : Site) (event : Machine → Event) : Action Unit := do
  let m ← get
  match m.observer with
  | none => return
  | some o => if wants m o then notify o site (event m)

theorem watch_unobserved {m : Machine} (hm : m.observer = none) {wants : Machine → Observer → Bool} {site : Site}
    {event : Machine → Event} : watch wants site event m = (.ok (), m) := by
  simp only [watch, bind_apply, get_apply, andThen_ok, hm, pure_apply]

def AllowsCounters (R : Machine → Machine → Prop) : Prop :=
  ∀ (m : Machine) count log, R m { m with count, log }

variable (hcounters : AllowsCounters R)
include hcounters

theorem keeps_notify (o : Observer) (site : Site) (event : Event) : Keeps R (notify o site event) := by
  intro m
  rw [notify_eq]
  exact hcounters m m.count _

theorem keeps_countCommand (site : Site) : Keeps R (countCommand site) := by
  intro m
  rw [countCommand_eq]
  exact hcounters m _ m.log

variable [IsPreorder Machine R]

theorem keeps_watch (wants : Machine → Observer → Bool) (site : Site) (event : Machine → Event) :
    Keeps R (watch wants site event) := by
  refine keeps_bind keeps_get fun m ↦ ?_
  split
  · exact keeps_pure
  · split
    · exact keeps_notify hcounters _ site _
    · exact keeps_pure

theorem keeps_watchCommand (site : Site) : Keeps R (watchCommand site) :=
  keeps_watch hcounters (fun m o ↦ o.settings.mode.wants m.count) site _

theorem keeps_watchCall (site : Site) (path caller : String) : Keeps R (watchCall site path caller) :=
  keeps_watch hcounters (fun _ o ↦ o.settings.calls) site _

theorem keeps_watchReturn (site : Site) (path : String) : Keeps R (watchReturn site path) :=
  keeps_watch hcounters (fun _ o ↦ o.settings.returns) site _

end Runs

end CommandPack.Machine
