import Mathlib
import CommandPack.Proofs.Structured

/-!
Runs one step at a time. A configuration is what is being executed, what waits for it to end and the machine;
a tick goes on by one command, one clause of results or one call. Whatever `run`, `load` and `exec` answer,
ticks lead to, so a property of every moment of a run is a property that ticks keep.
-/

namespace CommandPack.Machine

open Stateful Text

variable {words ws : List String} {m' : Machine} {o : Except Stop Result × Machine} {x : Action Result} {α β : Type}

/-- What is left to do for a command once its own words are done with. -/
inductive Outset where
  | done (r : Result)
  | call (path : String)
  | calls (paths : List String)
  | each (chain : Chain) (words : List String)

def functionOutset (site : Site) : List String → Action Outset
  | [] => fault site (.expected "function <name>")
  | name :: _ =>
    match dropLead? ['#'] name.toList with
    | none => return .call name
    | some tag => do
      match Dict.find? (String.ofList tag) (← get).tags with
      | none => fault site (.unknownTag name)
      | some paths => return .calls paths

def chainOutset (site : Site) (skip : Nat) : List String → Chain → Action Outset
  | [], c => .done <$> c.finish site
  | word :: args, c =>
    match skip with
    | skip + 1 => chainOutset site skip args c
    | 0 =>
      if word = "run" then
        if args.isEmpty then fault site (.expected "execute run <command>") else return .each c args
      else do
        let (c, used) ← c.clause site word args
        chainOutset site used args c

def outset (site : Site) (actor : Actor) : List String → Action Outset
  | [] => fault site .emptyCommand
  | word :: args =>
    if word = "execute" then chainOutset site 0 args ⟨actor, [actor], []⟩
    else if word = "function" then functionOutset site args
    else .done <$> simple noCall site actor word args

def Outset.finish (call : Call) (site : Site) (actor : Actor) : Outset → Action Result
  | done r => return r
  | .call path => call path site.location.function site actor
  | calls paths => do
    callAll call site actor paths
    return ⟨Int32.ofNat paths.length, true⟩
  | each chain words => chain.runEach site (perform call site words)

section Outset

variable (call : Call) (site : Site) (actor : Actor)

theorem function_eq_outset (words : List String) :
    function call site actor words = functionOutset site words >>= Outset.finish call site actor := by
  cases words with
  | nil => rfl
  | cons name rest =>
    dsimp only [function, functionOutset]
    cases dropLead? ['#'] name.toList with
    | none => rfl
    | some tag =>
      funext m
      simp only [bind_apply, get_apply, andThen_ok]
      cases Dict.find? (String.ofList tag) m.tags <;> rfl

theorem chain_eq_outset (skip : Nat) (words : List String) (c : Chain) :
    chain call site skip words c = chainOutset site skip words c >>= Outset.finish call site actor := by
  induction words generalizing skip c with
  | nil =>
    rw [chain.eq_def, chainOutset.eq_def]
    simp [Outset.finish]
  | cons word args ih =>
    rw [chain.eq_def, chainOutset.eq_def]
    cases skip with
    | succ skip => exact ih skip c
    | zero =>
      dsimp only
      split
      · split <;> rfl
      · rw [bind_assoc]
        exact bind_congr fun r ↦ ih r.2 r.1

theorem simple_congr (call' : Call) {word : String} (hword : word ≠ "function") (args : List String) :
    simple call site actor word args = simple call' site actor word args := by
  simp only [simple, hword, if_false]

theorem perform_eq_outset (words : List String) :
    perform call site words actor = outset site actor words >>= Outset.finish call site actor := by
  rw [perform.eq_def]
  cases words with
  | nil => rfl
  | cons word args =>
    dsimp only [outset]
    split
    · exact chain_eq_outset call site actor 0 args _
    · split
      · rename_i hword
        subst hword
        exact function_eq_outset call site actor args
      · rename_i hword
        rw [simple_congr call site actor noCall hword]
        simp [Outset.finish]

end Outset

theorem map_done_ne_each {c : Chain} : (Outset.done <$> x) m ≠ (.ok (.each c ws), m') := by
  rw [map_apply]
  rcases x m with ⟨e | r, m₁⟩ <;> nofun

theorem length_lt_of_chainOutset {site : Site} {skip : Nat} {c c' : Chain}
    (h : chainOutset site skip words c m = (.ok (.each c' ws), m')) : ws.length < words.length := by
  induction words generalizing skip c m with
  | nil =>
    rw [chainOutset.eq_def] at h
    exact absurd h map_done_ne_each
  | cons word args ih =>
    rw [chainOutset.eq_def] at h
    cases skip with
    | succ skip => exact (ih h).trans (Nat.lt_succ_self _)
    | zero =>
      dsimp only at h
      split at h
      · split at h
        · cases h
        · cases h
          exact Nat.lt_succ_self _
      · obtain ⟨r, m₁, -, h⟩ := bind_eq_ok.1 h
        exact (ih h).trans (Nat.lt_succ_self _)

theorem length_lt_of_outset {site : Site} {actor : Actor} {c : Chain}
    (h : outset site actor words m = (.ok (.each c ws), m')) : ws.length < words.length := by
  cases words with
  | nil => cases h
  | cons word args =>
    dsimp only [outset] at h
    split at h
    · exact (length_lt_of_chainOutset h).trans (Nat.lt_succ_self _)
    · split at h
      · cases args with
        | nil => cases h
        | cons name rest =>
          dsimp only [functionOutset] at h
          cases hlead : dropLead? ['#'] name.toList with
          | none =>
            rw [hlead] at h
            cases h
          | some tag =>
            rw [hlead] at h
            obtain ⟨m₀, m₁, -, h⟩ := bind_eq_ok.1 h
            cases htag : Dict.find? (String.ofList tag) m₀.tags <;> rw [htag] at h <;> cases h
      · exact absurd h map_done_ne_each

section Keeping

variable {R : Machine → Machine → Prop} [IsPreorder Machine R] {E : Stop → Prop} {site : Site} (hE : Blames E site)
  (hR : AllowsAll R)
include hE

theorem acts_functionOutset (words : List String) : Acts E [] R (functionOutset site words) := by
  cases words with
  | nil => exact acts_fault hE rfl
  | cons name rest =>
    dsimp only [functionOutset]
    cases dropLead? ['#'] name.toList with
    | none => exact acts_pure
    | some tag =>
      refine acts_get_bind (fun m ↦ ?_) fun _ _ ↦ rfl
      cases Dict.find? (String.ofList tag) m.tags
      · exact acts_fault hE rfl
      · exact acts_pure

include hR

theorem acts_chainOutset (skip : Nat) (words : List String) (c : Chain) :
    Acts E [] R (chainOutset site skip words c) := by
  induction words generalizing skip c with
  | nil =>
    rw [chainOutset.eq_def]
    exact acts_map _ (acts_chainFinish hE hR c)
  | cons word args ih =>
    rw [chainOutset.eq_def]
    cases skip with
    | succ skip => exact ih skip c
    | zero =>
      dsimp only
      split
      · split
        · exact acts_fault hE rfl
        · exact acts_pure
      · exact acts_bind (acts_clause hE hR c word) fun _ ↦ ih _ _

theorem acts_outset (actor : Actor) (hwords : setsBudget words = false) : Acts E [] R (outset site actor words) := by
  cases words with
  | nil => exact acts_fault hE rfl
  | cons word args =>
    dsimp only [outset]
    split
    · exact acts_chainOutset hE hR 0 args _
    · split
      · exact acts_functionOutset hE args
      · exact acts_map _ (acts_simple hE actor hR noCall ‹_› hwords)

omit hE in
theorem keeps_outset (site : Site) (actor : Actor) (words : List String) : Keeps R (outset site actor words) := by
  cases words with
  | nil => exact keeps_fault site _
  | cons word args =>
    dsimp only [outset]
    split
    · exact (acts_chainOutset (blames_any site) hR 0 args _).all
    · split
      · exact (acts_functionOutset (blames_any site) args).all
      · rw [map_eq_pure_bind]
        exact keeps_bind (keeps_simple site actor (fun _ _ site _ ↦ keeps_fault site _) hR word args)
          fun _ ↦ keeps_pure

end Keeping

/-- Something to be executed. -/
inductive Task where
  | step (site : Site) (actor : Actor)
  | perform (site : Site) (words : List String) (actor : Actor)
  | call (path caller : String) (site : Site) (actor : Actor)

/-- Something that waits for a task to end. -/
inductive Pending where
  /-- The commands of a function from a line on. Their total number is what the call yields. -/
  | lines (path : String) (site : Site) (actor : Actor) (line : Nat) (rest : List String) (total : Nat)
  /-- The functions of a tag that are still to be called. -/
  | calls (site : Site) (actor : Actor) (paths : List String) (total : Nat)
  /-- The actors for whom a command is still to be run; its result for `actor` is being awaited. -/
  | each (site : Site) (words : List String) (stores : List Store) (actor : Actor) (rest : List Actor)
      (last : Result)
  /-- Functions that are still to be called from outside of any function. -/
  | roots (paths : List String)

inductive Control where
  | eval (task : Task)
  | ret (r : Result)
  | stop (s : Stop)

structure Config where
  control : Control
  stack : List Pending
  machine : Machine

def Pending.frame? : Pending → Option Frame
  | lines path _ _ line _ _ => some ⟨path, line - 1⟩
  | _ => none

def Config.frames (c : Config) : List Frame := c.stack.filterMap Pending.frame?

/-- Goes on after an action; if the action stops the run, `held` is what was waiting then. -/
def enact (held : List Pending) (a : Action α) (next : α → Control × List Pending) (m : Machine) : Config :=
  match a m with
  | (.ok x, m) => ⟨(next x).1, (next x).2, m⟩
  | (.error s, m) => ⟨.stop s, held, m⟩

def fetchWords (site : Site) : Action (List String) := do
  countCommand site
  watchCommand site
  match splitWords site.location.command with
  | .error e => fault site (.words site.location.command e)
  | .ok words => return words

def nextActor (site : Site) (words : List String) (stores : List Store) (last : Result) (stack : List Pending) :
    List Actor → Control × List Pending
  | [] => (.ret last, stack)
  | actor :: rest => (.eval (.perform site words actor), .each site words stores actor rest last :: stack)

def Outset.next (site : Site) (actor : Actor) (stack : List Pending) : Outset → Control × List Pending
  | done r => (.ret r, stack)
  | .call path => (.eval (.call path site.location.function site actor), stack)
  | calls paths => (.ret .failed, .calls site actor paths paths.length :: stack)
  | each chain words => nextActor site words chain.stores .failed stack chain.actors

def Task.tick (stack : List Pending) (m : Machine) : Task → Config
  | step site actor => enact stack (fetchWords site) (fun words ↦ (.eval (.perform site words actor), stack)) m
  | perform site words actor => enact stack (outset site actor words) (Outset.next site actor stack) m
  | call path caller site actor =>
    match Dict.find? path m.functions with
    | none => ⟨.stop (.fault ⟨.unknownFunction path, site.location, site.frames⟩), stack, m⟩
    | some lines =>
      if m.maxDepth.toNat ≤ site.frames.length then
        ⟨.stop (.fault ⟨.tooDeep m.maxDepth path, site.location, site.frames⟩), stack, m⟩
      else
        let stack := .lines path site actor 1 lines lines.length :: stack
        enact stack (watchCall ⟨site.location, ⟨path, 0⟩ :: site.frames⟩ path caller)
          (fun _ ↦ (.ret .failed, stack)) m

def Result.orElse (r last : Result) : Result := if r.ok then ⟨r.value, true⟩ else last

def Pending.tick (r : Result) (stack : List Pending) (m : Machine) : Pending → Config
  | lines path site _ _ [] total =>
    enact stack (watchReturn site path) (fun _ ↦ (.ret ⟨Int32.ofNat total, true⟩, stack)) m
  | lines path site actor line (command :: rest) total =>
    ⟨.eval (.step ⟨⟨path, line, command⟩, ⟨path, line⟩ :: site.frames⟩ actor),
      .lines path site actor (line + 1) rest total :: stack, m⟩
  | calls _ _ [] total => ⟨.ret ⟨Int32.ofNat total, true⟩, stack, m⟩
  | calls site actor (path :: paths) total =>
    ⟨.eval (.call path site.location.function site actor), .calls site actor paths total :: stack, m⟩
  | each site words stores actor rest last =>
    enact stack (applyStores stores site actor r)
      (fun _ ↦ nextActor site words stores (r.orElse last) stack rest) m
  | roots [] => ⟨.ret r, stack, m⟩
  | roots (path :: paths) => ⟨.eval (.call path "" {} {}), .roots paths :: stack, m⟩

/-- One step of a run. A run that has ended stays as it is. -/
def tick (c : Config) : Config :=
  match c.control, c.stack with
  | .eval task, stack => task.tick stack c.machine
  | .ret r, pending :: stack => pending.tick r stack c.machine
  | _, _ => c

def Leads (c c' : Config) : Prop := ∃ n, tick^[n] c = c'

theorem Leads.refl (c : Config) : Leads c c := ⟨0, rfl⟩

theorem Leads.trans {c₁ c₂ c₃ : Config} : Leads c₁ c₂ → Leads c₂ c₃ → Leads c₁ c₃ := by
  rintro ⟨n, rfl⟩ ⟨k, rfl⟩
  exact ⟨k + n, Function.iterate_add_apply tick k n c₁⟩

theorem leads_tick (c : Config) : Leads c (tick c) := ⟨1, rfl⟩

/-- Ticks lead to the outcome of an action: to its result, with `stack` waiting, or to where it stops. -/
def Settles (c : Config) (stack : List Pending) : Except Stop Result × Machine → Prop
  | (.ok r, m) => Leads c ⟨.ret r, stack, m⟩
  | (.error s, m) => ∃ held, Leads c ⟨.stop s, held, m⟩

variable {c c' : Config} {stack : List Pending} {m : Machine}

theorem Settles.of_leads (h : Leads c c') (h' : Settles c' stack o) : Settles c stack o := by
  rcases o with ⟨s | r, m⟩
  · obtain ⟨held, h'⟩ := h'
    exact ⟨held, h.trans h'⟩
  · exact h.trans h'

theorem Settles.of_tick (h : Settles (tick c) stack o) : Settles c stack o := h.of_leads (leads_tick c)

theorem Settles.bind {f : Result → Action Result} {p : Pending} (hx : Settles c (p :: stack) (x m))
    (hf : ∀ r m₁, x m = (.ok r, m₁) → Settles ⟨.ret r, p :: stack, m₁⟩ stack (f r m₁)) :
    Settles c stack ((x >>= f) m) := by
  rw [bind_apply]
  rcases h : x m with ⟨s | r, m₁⟩
  · rw [h] at hx
    exact hx
  · rw [h] at hx
    exact (hf r m₁ h).of_leads hx

theorem settles_enact {held : List Pending} {a : Action α} {next : α → Control × List Pending}
    {f : α → Action Result}
    (hf : ∀ x m₁, a m = (.ok x, m₁) → Settles ⟨(next x).1, (next x).2, m₁⟩ stack (f x m₁)) :
    Settles (enact held a next m) stack ((a >>= f) m) := by
  rw [bind_apply, enact]
  rcases h : a m with ⟨s | x, m₁⟩
  · exact ⟨held, .refl _⟩
  · exact hf x m₁ h

/-- Running a command for the actors that are left. -/
def runFrom (site : Site) (stores : List Store) (run : Actor → Action Result) (last : Result) :
    List Actor → Action Result
  | [] => return last
  | actor :: rest => do
    let r ← run actor
    applyStores stores site actor r
    runFrom site stores run (r.orElse last) rest

theorem runEach_eq_runFrom (chain : Chain) (site : Site) (run : Actor → Action Result) :
    chain.runEach site run = runFrom site chain.stores run .failed chain.actors := by
  -- the loop may start anywhere, with any result so far
  have hloop (actors : List Actor) (value : Int32) (ok : Bool) :
      (do
        let s ← forIn actors (value, ok) fun actor s ↦ do
          let r ← run actor
          applyStores chain.stores site actor r
          if r.ok = true then pure (.yield (r.value, true)) else pure (.yield (s.1, s.2))
        return ⟨s.1, s.2⟩ : Action Result) = runFrom site chain.stores run ⟨value, ok⟩ actors := by
    induction actors generalizing value ok with
    | nil => rfl
    | cons actor rest ih =>
      simp only [List.forIn_cons, bind_assoc, runFrom]
      refine bind_congr fun r ↦ bind_congr fun _ ↦ ?_
      rcases hr : r.ok
      · simpa [Result.orElse, hr] using ih value ok
      · simpa [Result.orElse, hr] using ih r.value true
  exact hloop chain.actors 0 false

theorem callAll_cons (call : Call) (site : Site) (actor : Actor) (path : String) (paths : List String) :
    callAll call site actor (path :: paths) = (do
      let _ ← call path site.location.function site actor
      callAll call site actor paths) := by
  simp [callAll]

def SettlesCalls (d : Nat) : Prop :=
  ∀ path caller site actor stack m, site.frames.length + d = m.maxDepth.toNat →
    Settles ⟨.eval (.call path caller site actor), stack, m⟩ stack (callFunction d path caller site actor m)

theorem levels_eq {a : Action α} (ha : Keeps SameSetup a) {x : Except Stop α} {m₁ : Machine} {n : Nat}
    (hn : n = m.maxDepth.toNat) (h : a m = (x, m₁)) : n = m₁.maxDepth.toNat := by
  have hdepth : m₁.maxDepth = m.maxDepth := (congrArg Setup.maxDepth (ha.of_eq h) :)
  rw [hn, hdepth]

theorem keeps_setup_call (d : Nat) (path caller : String) (site : Site) (actor : Actor) :
    Keeps SameSetup (callFunction d path caller site actor) :=
  keeps_callFunction allowsCounters_sameSetup allowsAll_sameSetup d path caller site actor

theorem keeps_fetchWords {R : Machine → Machine → Prop} [IsPreorder Machine R] (hR : AllowsCounters R)
    (site : Site) : Keeps R (fetchWords site) := by
  refine keeps_bind (keeps_countCommand hR site) fun _ ↦ keeps_bind (keeps_watchCommand hR site) fun _ ↦ ?_
  split
  · exact keeps_fault site _
  · exact keeps_pure

theorem step_eq_fetchWords (call : Call) (site : Site) (actor : Actor) :
    step call site actor = fetchWords site >>= fun words ↦ perform call site words actor := by
  simp only [step, fetchWords, bind_assoc]
  refine bind_congr fun _ ↦ bind_congr fun _ ↦ ?_
  cases splitWords site.location.command <;> rfl

section Agreement

variable {d : Nat}

theorem settles_runFrom (site : Site) (stores : List Store) (last : Result)
    (actors : List Actor) (hm : site.frames.length + d = m.maxDepth.toNat)
    (hperform : ∀ actor stack m, site.frames.length + d = m.maxDepth.toNat →
      Settles ⟨.eval (.perform site words actor), stack, m⟩ stack (perform (callFunction d) site words actor m)) :
    Settles ⟨(nextActor site words stores last stack actors).1,
        (nextActor site words stores last stack actors).2, m⟩ stack
      (runFrom site stores (perform (callFunction d) site words) last actors m) := by
  induction actors generalizing last m with
  | nil => exact .refl _
  | cons actor rest ih =>
    refine .bind (hperform actor _ m hm) fun r m₁ h₁ ↦ .of_tick (settles_enact fun _ m₂ h₂ ↦ ih _ ?_)
    have hm₁ := levels_eq (keeps_perform site actor (keeps_setup_call d) allowsAll_sameSetup words) hm h₁
    exact levels_eq (keeps_applyStores site actor allowsAll_sameSetup _ _) hm₁ h₂

variable (hcall : SettlesCalls d)

include hcall

theorem settles_calls (site : Site) (actor : Actor) (total : Nat) (r : Result) (paths : List String)
    (hm : site.frames.length + d = m.maxDepth.toNat) :
    Settles ⟨.ret r, .calls site actor paths total :: stack, m⟩ stack
      ((do
        callAll (callFunction d) site actor paths
        return ⟨Int32.ofNat total, true⟩ : Action Result) m) := by
  induction paths generalizing r m with
  | nil => exact .of_tick (.refl _)
  | cons path paths ih =>
    rw [callAll_cons, bind_assoc]
    refine .of_tick (.bind (hcall _ _ _ _ _ _ hm) fun r' m₁ h ↦ ih r' ?_)
    exact levels_eq (keeps_setup_call d _ _ _ _) hm h

theorem settles_perform (site : Site) (words : List String) (actor : Actor) (stack : List Pending)
    (m : Machine) (hm : site.frames.length + d = m.maxDepth.toNat) :
    Settles ⟨.eval (.perform site words actor), stack, m⟩ stack
      (perform (callFunction d) site words actor m) := by
  induction hn : words.length using Nat.strong_induction_on generalizing words actor stack m with
  | _ n ih =>
    rw [perform_eq_outset]
    refine .of_tick (settles_enact fun o m₁ h ↦ ?_)
    have hm₁ := levels_eq (keeps_outset allowsAll_sameSetup site actor words) hm h
    cases o with
    | done r => exact .refl _
    | call path => exact hcall _ _ _ _ _ _ hm₁
    | calls paths => exact settles_calls hcall site actor _ _ paths hm₁
    | each chain ws =>
      rw [Outset.finish, runEach_eq_runFrom]
      have hlt : ws.length < n := hn ▸ length_lt_of_outset h
      exact settles_runFrom site chain.stores _ _ hm₁ fun actor stack m hm ↦
        ih ws.length hlt ws actor stack m hm rfl

theorem settles_step (site : Site) (actor : Actor) (hm : site.frames.length + d = m.maxDepth.toNat) :
    Settles ⟨.eval (.step site actor), stack, m⟩ stack (step (callFunction d) site actor m) := by
  rw [step_eq_fetchWords]
  refine .of_tick (settles_enact fun words m₁ h ↦ settles_perform hcall site words actor stack m₁ ?_)
  exact levels_eq (keeps_fetchWords allowsCounters_sameSetup site) hm h

theorem settles_lines (path : String) (site : Site) (actor : Actor) (line : Nat) (rest : List String)
    (total : Nat) (r : Result) (hm : site.frames.length + (d + 1) = m.maxDepth.toNat) :
    Settles ⟨.ret r, .lines path site actor line rest total :: stack, m⟩ stack
      ((do
        runLines (callFunction d) path site.frames actor line rest
        watchReturn site path
        return ⟨Int32.ofNat total, true⟩ : Action Result) m) := by
  induction rest generalizing line r m with
  | nil => exact .of_tick (settles_enact fun _ _ _ ↦ .refl _)
  | cons command rest ih =>
    rw [runLines, bind_assoc]
    have hm' : (⟨path, line⟩ :: site.frames : List Frame).length + d = m.maxDepth.toNat := by
      rw [List.length_cons]
      omega
    refine .of_tick (.bind (settles_step hcall _ actor hm') fun r' m₁ h ↦ ih _ r' ?_)
    exact levels_eq (keeps_step allowsCounters_sameSetup allowsAll_sameSetup (keeps_setup_call d) _ actor) hm h

end Agreement

theorem settlesCalls (d : Nat) : SettlesCalls d := by
  induction d with
  | zero =>
    intro path caller site actor stack m hm
    refine .of_tick ?_
    rw [callFunction.eq_def]
    simp only [bind_apply, get_apply, andThen_ok, tick, Task.tick]
    cases hpath : Dict.find? path m.functions with
    | none => exact ⟨stack, .refl _⟩
    | some lines =>
      have hdepth : m.maxDepth.toNat ≤ site.frames.length := by omega
      dsimp only
      rw [if_pos hdepth]
      exact ⟨stack, .refl _⟩
  | succ d ih =>
    intro path caller site actor stack m hm
    refine .of_tick ?_
    rw [callFunction.eq_def]
    simp only [bind_apply, get_apply, andThen_ok, tick, Task.tick]
    cases hpath : Dict.find? path m.functions with
    | none => exact ⟨stack, .refl _⟩
    | some lines =>
      have hdepth : ¬ m.maxDepth.toNat ≤ site.frames.length := by omega
      dsimp only
      rw [if_neg hdepth]
      refine settles_enact fun _ m₁ h ↦ settles_lines ih path site actor 1 lines _ _ ?_
      exact levels_eq (keeps_watchCall allowsCounters_sameSetup _ path caller) hm h

/-- What a machine can be asked to do. -/
inductive Errand where
  | run (path : String) (cancelled : Bool)
  | load (cancelled : Bool)
  | exec (command : String) (cancelled : Bool)

namespace Errand

def cancelled : Errand → Bool
  | run _ cancelled | load cancelled | exec _ cancelled => cancelled

def opening (m : Machine) : Errand → Control × List Pending
  | run path _ => (.ret .failed, [.roots [path]])
  | load _ => (.ret .failed, [.roots ((Dict.find? loadTag m.tags).getD [])])
  | exec command _ => (.eval (.step ⟨⟨"", 1, command⟩, []⟩ {}), [])

def start (e : Errand) (m : Machine) : Config :=
  ⟨(e.opening m).1, (e.opening m).2, { m with running := true, cancelled := e.cancelled, count := 0 }⟩

def outcome (m : Machine) : Errand → Except Stop Unit × Machine
  | run path cancelled => m.run path cancelled
  | load cancelled => m.load cancelled
  | exec command cancelled => ((m.exec command cancelled).1.map fun _ ↦ (), (m.exec command cancelled).2)

end Errand

def Config.verdict? (c : Config) : Option (Except Stop Unit) :=
  match c.control, c.stack with
  | .stop s, _ => some (.error s)
  | .ret _, [] => some (.ok ())
  | _, _ => none

theorem tick_of_verdict {v : Except Stop Unit} (h : c.verdict? = some v) : tick c = c := by
  rcases c with ⟨control, stack, m⟩
  cases control with
  | eval task => cases stack <;> cases h
  | ret r =>
    cases stack with
    | nil => rfl
    | cons p stack => cases h
  | stop s => cases stack <;> rfl

theorem Leads.verdict_unique {c₁ c₂ : Config} {v₁ v₂ : Except Stop Unit} (h₁ : Leads c c₁)
    (hv₁ : c₁.verdict? = some v₁) (h₂ : Leads c c₂) (hv₂ : c₂.verdict? = some v₂) : c₁ = c₂ := by
  obtain ⟨n₁, rfl⟩ := h₁
  obtain ⟨n₂, rfl⟩ := h₂
  -- a run that has ended stays as it is, so the longer of the two ends as the shorter
  have hstay {n k : Nat} {v : Except Stop Unit} (h : n ≤ k) (hv : (tick^[n] c).verdict? = some v) :
      tick^[k] c = tick^[n] c := by
    obtain ⟨i, rfl⟩ := Nat.exists_eq_add_of_le' h
    rw [Function.iterate_add_apply, Function.iterate_fixed (tick_of_verdict hv)]
  rcases Nat.le_total n₁ n₂ with h | h
  · exact (hstay h hv₁).symm
  · exact hstay h hv₂

def Ends (c : Config) (o : Except Stop Unit × Machine) : Prop :=
  ∃ c', Leads c c' ∧ c'.verdict? = some o.1 ∧ c'.machine = o.2

theorem Settles.ends (h : Settles c [] o) : Ends c (o.1.map fun _ ↦ (), o.2) := by
  rcases o with ⟨s | r, m⟩
  · obtain ⟨held, h⟩ := h
    exact ⟨_, h, by cases held <;> rfl, rfl⟩
  · exact ⟨_, h, rfl, rfl⟩

theorem ends_roots (r : Result) {d : Nat} (paths : List String) (hm : d = m.maxDepth.toNat) :
    Ends ⟨.ret r, [.roots paths], m⟩ (callEach d paths m) := by
  induction paths generalizing r m with
  | nil => exact ⟨_, leads_tick _, rfl, rfl⟩
  | cons path paths ih =>
    have hm' : ({} : Site).frames.length + d = m.maxDepth.toNat := (Nat.zero_add d).trans hm
    have hcall := settlesCalls d path "" {} {} [.roots paths] m hm'
    rw [callEach, bind_apply]
    rcases h : callFunction d path "" {} {} m with ⟨s | r', m₁⟩
    · rw [h] at hcall
      obtain ⟨held, hcall⟩ := hcall
      exact ⟨_, (leads_tick _).trans hcall, by cases held <;> rfl, rfl⟩
    · rw [h] at hcall
      obtain ⟨c', hc', hend⟩ := ih r' (levels_eq (keeps_setup_call d _ _ _ _) hm h)
      exact ⟨c', (leads_tick _).trans (Leads.trans hcall hc'), hend⟩

theorem asRun_eq (hm : m.running = false) (cancelled : Bool) (a : Action α) :
    m.asRun cancelled a = ((a { m with running := true, cancelled, count := 0 }).1,
      (a { m with running := true, cancelled, count := 0 }).2.finish) := by
  simp only [asRun, begin, hm, Bool.false_eq_true, if_false]
  rfl

theorem Errand.outcome_of_running (e : Errand) (hm : m.running = true) : e.outcome m = (.error .busy, m) := by
  cases e <;> simp [outcome, Machine.run, Machine.load, Machine.exec, asRun, begin, hm, Except.map]

theorem Errand.ends (e : Errand) (hm : m.running = false) :
    ∃ o, Ends (e.start m) o ∧ e.outcome m = (o.1, o.2.finish) := by
  cases e with
  | run path cancelled => exact ⟨_, ends_roots .failed [path] rfl, asRun_eq hm cancelled _⟩
  | load cancelled => exact ⟨_, ends_roots .failed _ rfl, asRun_eq hm cancelled _⟩
  | exec command cancelled =>
    refine ⟨_, (settles_step (settlesCalls m.maxDepth.toNat) _ {} (Nat.zero_add _)).ends, ?_⟩
    simp only [outcome, Machine.exec, asRun_eq hm]
    rfl

theorem Errand.reaches_outcome (e : Errand) (hm : m.running = false) :
    ∃ n, (tick^[n] (e.start m)).verdict? = some (e.outcome m).1 ∧
      (tick^[n] (e.start m)).machine.finish = (e.outcome m).2 := by
  obtain ⟨o, ⟨c, ⟨n, rfl⟩, hverdict, hmachine⟩, hout⟩ := e.ends hm
  rw [hout]
  exact ⟨n, hverdict, by rw [hmachine]⟩

theorem Errand.exists_tick {e : Errand} {v : Except Stop Unit} (h : e.outcome m = (v, m')) (hv : v ≠ .error .busy) :
    m.running = false ∧ ∃ n, (tick^[n] (e.start m)).verdict? = some v ∧ (tick^[n] (e.start m)).machine.finish = m' := by
  have hidle : m.running = false := by
    by_contra hrunning
    rw [e.outcome_of_running (by simpa using hrunning)] at h
    exact hv (congrArg Prod.fst h).symm
  have hreaches := e.reaches_outcome hidle
  rw [h] at hreaches
  exact ⟨hidle, hreaches⟩

def Stop.isBudget : Stop → Bool
  | .fault f => match f.cause with
    | .budget _ => true
    | _ => false
  | _ => false

def Control.isOver : Control → Bool
  | .stop s => s.isBudget
  | _ => false

theorem isOver_nextActor (site : Site) (words : List String) (stores : List Store) (last : Result)
    (actors : List Actor) : (nextActor site words stores last stack actors).1.isOver = false := by
  cases actors <;> rfl

theorem isOver_next (site : Site) (actor : Actor) (o : Outset) :
    (o.next site actor stack).1.isOver = false := by
  cases o with
  | each chain ws => exact isOver_nextActor site ws _ _ _
  | _ => rfl

/-- The actions that a tick may take. -/
inductive Part (c : Config) : {α : Type} → Action α → Prop
  | fetch (site : Site) : Part c (fetchWords site)
  | outset {site : Site} {words : List String} {actor : Actor} (h : c.control = .eval (.perform site words actor)) :
      Part c (outset site actor words)
  | call (site : Site) (path caller : String) : Part c (watchCall site path caller)
  | leave (site : Site) (path : String) : Part c (watchReturn site path)
  | stores (stores : List Store) (site : Site) (actor : Actor) (r : Result) : Part c (applyStores stores site actor r)

def Config.map (f : Machine → Machine) (c : Config) : Config := { c with machine := f c.machine }

/-- A tick takes an action or leaves the machine alone, and so it does after a change of the machine that takes
away no function. If the change allows more calls, the run may go on where it stopped. -/
theorem tick_cases {P : Config → Config → Prop} {f : Machine → Machine}
    (hsame : ∀ c', c'.machine = c.machine → c' = c ∨ c.control.isOver = false ∧ c'.control.isOver = false →
      P c' (c'.map f))
    (henact : ∀ {α : Type} {a : Action α} {held : List Pending} {next : α → Control × List Pending}, Part c a →
      c.control.isOver = false → (∀ x, (next x).1.isOver = false) →
      P (enact held a next c.machine) (enact held a next (f c.machine)))
    (hfunctions : (f c.machine).functions = c.machine.functions)
    (hdepth : (f c.machine).maxDepth = c.machine.maxDepth ∨
      c.machine.maxDepth ≤ (f c.machine).maxDepth ∧ ∀ s held c', P ⟨.stop s, held, c.machine⟩ c') :
    P (tick c) (tick (c.map f)) := by
  rcases c with ⟨control, stack, m⟩
  cases control with
  | eval task =>
    cases task with
    | step site actor => exact henact (.fetch site) rfl fun _ ↦ rfl
    | perform site words actor => exact henact (.outset rfl) rfl (isOver_next site actor)
    | call path caller site actor =>
      change P (Task.tick stack m (.call path caller site actor)) (Task.tick stack (f m) (.call path caller site actor))
      dsimp only at hfunctions hdepth
      simp only [Task.tick, hfunctions]
      cases Dict.find? path m.functions with
      | none => exact hsame _ rfl (.inr ⟨rfl, rfl⟩)
      | some lines =>
        dsimp only
        rcases hdepth with hdepth | ⟨hdepth, hstop⟩
        · rw [hdepth]
          split
          · exact hsame _ rfl (.inr ⟨rfl, rfl⟩)
          · exact henact (.call _ path caller) rfl fun _ ↦ rfl
        · split
          · exact hstop _ _ _
          · rename_i hroom
            rw [if_neg (by omega)]
            exact henact (.call _ path caller) rfl fun _ ↦ rfl
  | ret r =>
    cases stack with
    | nil => exact hsame _ rfl (.inl rfl)
    | cons p stack =>
      cases p with
      | lines path site actor line rest total =>
        cases rest with
        | nil => exact henact (.leave site path) rfl fun _ ↦ rfl
        | cons command rest => exact hsame _ rfl (.inr ⟨rfl, rfl⟩)
      | calls site actor paths total => cases paths <;> exact hsame _ rfl (.inr ⟨rfl, rfl⟩)
      | each site words stores actor rest last =>
        exact henact (.stores stores site actor r) rfl fun _ ↦ isOver_nextActor site words stores _ rest
      | roots paths => cases paths <;> exact hsame _ rfl (.inr ⟨rfl, rfl⟩)
  | stop s => cases stack <;> exact hsame _ rfl (.inl rfl)

theorem keeps_tick {R : Machine → Machine → Prop} [IsPreorder Machine R] (hcounters : AllowsCounters R)
    (hR : AllowsAll R) (c : Config) : R c.machine (tick c).machine := by
  refine tick_cases (P := fun c' _ ↦ R c.machine c'.machine) (f := id) (fun c' hc' _ ↦ hc' ▸ refl_of R _)
    (fun {α a held next} hpart _ _ ↦ ?_) rfl (.inl rfl)
  have ha : Keeps R a := by
    cases hpart with
    | fetch site => exact keeps_fetchWords hcounters site
    | outset h => exact keeps_outset hR _ _ _
    | call site path caller => exact keeps_watchCall hcounters site path caller
    | leave site path => exact keeps_watchReturn hcounters site path
    | stores stores site actor r => exact keeps_applyStores site actor hR stores r
  unfold enact
  rcases h : a c.machine with ⟨s | x, m₁⟩ <;> exact ha.of_eq h

end CommandPack.Machine
