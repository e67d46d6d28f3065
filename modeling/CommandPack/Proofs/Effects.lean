import Mathlib
import CommandPack.Proofs.Populating

/-!
The effect of written commands, one after the other, in a run that has room for them.
-/

namespace CommandPack.Machine

open Stateful Text

variable {m m₁ m₂ m' : Machine} {site : Site} {actor : Actor} {call : Call} {k : Nat}

/-- There is room for some more commands, and nobody watches the run or wants it to end. -/
structure Room (k : Nat) (m : Machine) : Prop where
  unwatched : m.observer = none
  wanted : m.cancelled = false
  budget : m.maxCommands ≤ 0 ∨ (m.count : Int) + k ≤ m.maxCommands

def ticked (m : Machine) : Machine := { m with count := m.count + 1 }

theorem Room.countCommand (h : Room k m) (hk : 0 < k) (site : Site) : countCommand site m = (.ok (), m.ticked) := by
  have hbudget : ¬ (m.maxCommands > 0 ∧ ((m.count + 1 : Nat) : Int) > m.maxCommands) := by
    rcases h.budget with hm | hm
    · omega
    · push_cast at hm ⊢
      omega
  have hwanted : ¬ (m.checkInterval > 0 ∧ ((m.count + 1 : Nat) : Int) % m.checkInterval = 0 ∧ m.cancelled = true) := by
    simp [h.wanted]
  rw [countCommand_eq, countOutcome, if_neg hbudget, if_neg hwanted]
  rfl

theorem Room.ends_step (h : Room k m) (hk : 0 < k) {words : List String} (hsplit : splitWords site.location.command = .ok words)
    (hwords : Ends (perform call site words actor) m.ticked m') : Ends (step call site actor) m m' := by
  have hwatch : watchCommand site m.ticked = (.ok (), m.ticked) :=
    watch_unobserved (m := m.ticked) h.unwatched
  refine ends_bind (h.countCommand hk site) (ends_bind hwatch ?_)
  rw [hsplit]
  exact hwords

theorem ends_call {d : Nat} {path caller : String} {lines : List String} (hpath : Dict.find? path m.functions = some lines)
    (hm : m.observer = none) (hm' : m'.observer = none)
    (hlines : Ends (runLines (callFunction d) path site.frames actor 1 lines) m m') :
    Ends (callFunction (d + 1) path caller site actor) m m' := by
  rw [callFunction.eq_def]
  refine ends_bind (get_apply m) ?_
  simp only [hpath]
  have hwatch : watchCall ⟨site.location, ⟨path, 0⟩ :: site.frames⟩ path caller m = (.ok (), m) :=
    watch_unobserved hm
  have hreturn : watchReturn site path m' = (.ok (), m') := watch_unobserved hm'
  exact ends_bind hwatch (hlines.bind fun _ ↦ ends_bind hreturn (ends_pure _ _))

theorem run_of_ends {path : String} (hidle : m.running = false)
    (h : Ends (callFunction m.maxDepth.toNat path "" {} {}) { m with running := true, cancelled := false, count := 0 } m') :
    m.run path = (.ok (), m'.finish) := by
  obtain ⟨r, hr⟩ := h
  have heach : callEach m.maxDepth.toNat [path] { m with running := true, cancelled := false, count := 0 } =
      (.ok (), m') := by
    simp only [callEach, bind_apply, hr, andThen_ok, pure_apply]
  simp only [run, asRun, begin, hidle, Bool.false_eq_true, if_false]
  rw [heach]

/-- Machines differ at most in what functions about objects change. -/
structure Beside (m m' : Machine) : Prop where
  eq : m' = { m with objectives := m'.objectives, scores := m'.scores, entities := m'.entities,
                     lastEntity := m'.lastEntity, count := m'.count }
  objectives : m.objectives ⊆ m'.objectives

instance : IsPreorder Machine Beside where
  refl _ := ⟨rfl, List.Subset.refl _⟩
  trans m₁ m₂ m₃ h h' := ⟨by rw [h'.eq, h.eq], List.Subset.trans h.objectives h'.objectives⟩

theorem beside_ticked (m : Machine) : Beside m m.ticked := ⟨rfl, List.Subset.refl _⟩

theorem beside_changed (m : Machine) (f : Entity → Entity) : Beside m (m.changed f) := ⟨rfl, List.Subset.refl _⟩

theorem beside_joined (m : Machine) (e : Entity) : Beside m (m.joined e) := ⟨rfl, List.Subset.refl _⟩

theorem beside_setScore (m : Machine) (p o : String) (v : Int32) : Beside m (setScore m (.player p) o v) :=
  ⟨rfl, List.Subset.refl _⟩

theorem beside_withObjective (m : Machine) (o : String) : Beside m (m.withObjective o) := by
  unfold withObjective
  split
  · exact refl_of Beside m
  · exact ⟨rfl, List.subset_append_left _ _⟩

theorem Beside.usable (h : Beside m m') {o : String} (ho : Usable o m) : Usable o m' := by
  refine ho.imp (fun hstrict ↦ ?_) (fun hmem ↦ h.objectives hmem)
  rw [h.eq]
  exact hstrict

theorem Beside.room (h : Beside m m') {j n : Nat} (hm : Room j m) (hcount : m'.count = m.count + n) (hj : n + k ≤ j) :
    Room k m' := by
  obtain ⟨hwatch, hwanted, hbudget⟩ := hm
  refine ⟨?_, ?_, ?_⟩
  · rw [h.eq]
    exact hwatch
  · rw [h.eq]
    exact hwanted
  · have hmax : m'.maxCommands = m.maxCommands := by rw [h.eq]
    rw [hmax, hcount]
    push_cast at hbudget ⊢
    omega

@[simp] theorem count_withObjective (o : String) (m : Machine) : (m.withObjective o).count = m.count := by
  unfold withObjective
  split <;> rfl

@[simp] theorem lastEntity_withObjective (o : String) (m : Machine) : (m.withObjective o).lastEntity = m.lastEntity := by
  unfold withObjective
  split <;> rfl

/-- A line takes one machine to another, with `n` more commands on the way. -/
structure Effect (call : Call) (l : String) (n : Nat) (m m' : Machine) : Prop where
  ends : ∃ words, splitWords l = .ok words ∧ ∀ site, Ends (perform call site words {}) m m'
  beside : Beside m m'
  count : m'.count = m.count + n

/-- Lines that together are `n` commands take one machine to another. -/
inductive Effects (call : Call) : List String → Nat → Machine → Machine → Prop
  | nil {m : Machine} : Effects call [] 0 m m
  | cons {l : String} {ls : List String} {a b : Nat} {m m₁ m₂ : Machine} (h : Effect call l a m.ticked m₁)
      (hs : Effects call ls b m₁ m₂) : Effects call (l :: ls) (a + 1 + b) m m₂

variable {l : String} {ls : List String} {n : Nat}

theorem Effect.count_ticked (h : Effect call l n m.ticked m') : m'.count = m.count + (n + 1) := by
  rw [h.count]
  simp only [ticked]
  omega

theorem Effect.beside_ticked (h : Effect call l n m.ticked m') : Beside m m' :=
  trans_of Beside (Machine.beside_ticked m) h.beside

theorem Effects.beside (h : Effects call ls n m m') : Beside m m' := by
  induction h with
  | nil => exact refl_of Beside _
  | cons h _ ih => exact trans_of Beside h.beside_ticked ih

theorem Effects.count (h : Effects call ls n m m') : m'.count = m.count + n := by
  induction h with
  | nil => rfl
  | cons h _ ih =>
    rw [ih, h.count_ticked]
    omega

theorem Effects.ends (h : Effects call ls n m m') (hroom : Room n m) (path : String) (frames : List Frame) (line : Nat) :
    Ends (runLines call path frames {} line ls) m m' := by
  induction h generalizing line with
  | nil => exact ends_pure _ _
  | cons h _ ih =>
    obtain ⟨words, hsplit, hwords⟩ := h.ends
    refine (hroom.ends_step (by omega) hsplit (hwords _)).bind fun _ ↦ ?_
    exact ih (h.beside_ticked.room hroom h.count_ticked le_rfl) (line + 1)

def untagLine (t : String) : String := join " " ["tag", "@e", "remove", t]

def operationLine (target objective source objective' : String) : String :=
  join " " ["scoreboard", "players", "operation", target, objective, "=", source, objective']

def summonLine (type a b c : String) : String := join " " ["summon", type, "0", "0", "0", tagData a b c]

/-- A command for each entity with a tag for which a condition holds, or does not. -/
def eachLine (t : String) (sense : Bool) (cond cmd : List String) : String :=
  join " " ("execute" :: "as" :: selectorOf t :: senseWord sense :: (cond ++ "run" :: cmd))

variable {t p q o o' : String}

theorem splitWords_operationLine {target source : String} (ht : splitWords target = .ok [target])
    (ho : IsName o) (hs : IsName source) (ho' : IsName o') : splitWords (operationLine target o source o') =
      .ok ["scoreboard", "players", "operation", target, o, "=", source, o'] := by
  refine splitWords_join_words ?_
  simp only [List.forall_mem_cons, ht, ho.split, hs.split, ho'.split, true_and]
  exact ⟨rfl, rfl, rfl, rfl, by simp⟩

theorem effect_untag (ht : IsName t) (hm : m.Distinct) :
    Effect call (untagLine t) 0 m (m.changed (wherever (·.alive) (Entity.without t))) := by
  refine ⟨⟨["tag", "@e", "remove", t], splitWords_join_words ?_, fun site ↦ hm.perform_untag t⟩, beside_changed _ _, rfl⟩
  simp only [List.forall_mem_cons, ht.split, true_and]
  exact ⟨rfl, rfl, rfl, by simp⟩

theorem effect_increment (hp : IsName p) (ho : IsName o) (hu : Usable o m) :
    Effect call (scoreLine "add" p o "1") 0 m
      (setScore (m.withObjective o) (.player p) o ((score? m (.player p) o).getD 0 + 1)) := by
  have hread : Decimal.readInt? 32 "1" = some 1 := rfl
  refine ⟨⟨_, splitWords_scoreLine hp ho ⟨by decide, rfl⟩ rfl, fun site ↦ ?_⟩, ?_, by simp [setScore]⟩
  · rw [perform_assign .add hp.notSelector hread]
    refine ends_bind (hu.useObjective site) (ends_bind (get_apply _) (ends_bind (a := ()) ?_ (ends_pure _ _)))
    rw [score?_withObjective]
    rfl
  · exact trans_of Beside (beside_withObjective _ _) (beside_setScore _ _ _ _)

theorem effect_summon (type : String) {a b c : String} (htype : splitWords type = .ok [type]) (ha : isRestrictedText a = true)
    (hb : isRestrictedText b = true) (hc : isRestrictedText c = true) (hab : a ≠ b) (hac : a ≠ c) (hbc : b ≠ c) :
    ∃ pos, ∀ call m, Effect call (summonLine type a b c) 0 m (m.joined (newcomer m type a b c pos)) := by
  obtain ⟨pos, hpos⟩ := perform_summon ha hb hc hab hac hbc type {}
  have hdata : splitWords (tagData a b c) = .ok [tagData a b c] := by
    rw [tagData_eq]
    exact splitWords_tagNote (by simp [ha, hb, hc])
  refine ⟨pos, fun call m ↦ ⟨⟨_, splitWords_join_words ?_, fun site ↦ hpos call site m⟩, beside_joined _ _, rfl⟩⟩
  simp only [List.forall_mem_cons, htype, hdata, true_and]
  exact ⟨rfl, rfl, rfl, rfl, by simp⟩

theorem effect_share (ht : isRestrictedText t = true) (ho : IsName o) (hp : IsName p) (ho' : IsName o') (hm : m.Distinct)
    (hu : Usable o m) (hu' : Usable o' m) :
    Effect call (operationLine (selectorOf t) o p o') 0 m (((m.withObjective o).withObjective o').changed
      (wherever (Entity.shows t) (Entity.rescored o fun _ ↦ (score? m (.player p) o').getD 0))) :=
  ⟨⟨_, splitWords_operationLine (splitWords_selectorOf ht) ho hp ho', fun site ↦ hm.perform_share ht hu hu' hp.notSelector⟩,
    trans_of Beside (beside_withObjective _ _) (trans_of Beside (beside_withObjective _ _) (beside_changed _ _)),
    by simp [Machine.changed]⟩

theorem effect_copy (hq : IsName q) (ho : IsName o) (hp : IsName p) (ho' : IsName o') (hu : Usable o m) (hu' : Usable o' m) :
    Effect call (operationLine q o p o') 0 m
      (setScore ((m.withObjective o).withObjective o') (.player q) o ((score? m (.player p) o').getD 0)) :=
  ⟨⟨_, splitWords_operationLine hq.split ho hp ho', fun site ↦ perform_copy hu hu' hq.notSelector hp.notSelector⟩,
    trans_of Beside (beside_withObjective _ _) (trans_of Beside (beside_withObjective _ _) (beside_setScore _ _ _ _)),
    by simp [setScore]⟩

/-- The ways to change a score by a number. -/
inductive Assigns : String → (Int32 → Int32 → Int32) → Prop
  | set : Assigns "set" fun _ n ↦ n
  | add : Assigns "add" (· + ·)
  | remove : Assigns "remove" (· - ·)

theorem effect_assign {word : String} {f : Int32 → Int32 → Int32} (hword : Assigns word f)
    (ht : isRestrictedText t = true) (ho : IsName o) (hm : m.Distinct) (hu : Usable o m) :
    Effect call (scoreLine word (selectorOf t) o "1") 0 m ((m.withObjective o).changed
      (wherever (Entity.shows t) (Entity.rescored o fun v ↦ f (v.getD 0) 1))) := by
  have hread : Decimal.readInt? 32 "1" = some 1 := rfl
  refine ⟨⟨["scoreboard", "players", word, selectorOf t, o, "1"], splitWords_join_words ?_, fun site ↦ ?_⟩,
    trans_of Beside (beside_withObjective _ _) (beside_changed _ _), by simp [Machine.changed]⟩
  · have hsplit : splitWords word = .ok [word] := by cases hword <;> rfl
    simp only [List.forall_mem_cons, splitWords_selectorOf ht, ho.split, hsplit, true_and]
    exact ⟨rfl, rfl, rfl, by simp⟩
  · have hends : Ends (assignScores site {} word f [selectorOf t, o, "1"]) m ((m.withObjective o).changed
        (wherever (Entity.shows t) (Entity.rescored o fun v ↦ f (v.getD 0) 1))) :=
      hm.ends_assignScores ht hu hread word f
    rw [perform.eq_def]
    cases hword <;>
      simpa only [simple, scoreboard, String.reduceEq, if_false, if_true, scoreboardPlayers] using hends

theorem effect_each (ht : isRestrictedText t = true) {cond cmd : List String} (hcond : IsTest cond) (hcmd : cmd ≠ [])
    (hsplit : ∀ s ∈ cond ++ cmd, splitWords s = .ok [s]) (hm : m.Distinct) (sense : Bool) {k : Nat} {holds : Actor → Bool}
    (htest : ∀ site a, test site a cond m = (.ok ⟨k, holds a⟩, m₁)) (hm₁ : Beside m m₁) (hentities : m₁.entities = m.entities)
    (hcount : m₁.count = m.count) {f : Entity → Bool} (hf : ∀ e ∈ m.entities, holds ⟨some e.id, {}⟩ = f e)
    {g : Entity → Entity} (hg : KeepsId g)
    (hrun : ∀ site (e : Entity) (m' : Machine), m'.Distinct →
      Ends (perform call site cmd ⟨some e.id, {}⟩) m' (m'.changed (among [e.id] g))) :
    Effect call (eachLine t sense cond cmd) 0 m (m₁.changed (wherever (fun e ↦ e.shows t && f e == sense) g)) := by
  have hends (site : Site) : Ends (perform call site ("execute" :: "as" :: selectorOf t :: senseWord sense ::
      (cond ++ "run" :: cmd)) {}) m (m₁.changed (wherever (fun e ↦ e.shows t && f e == sense) g)) :=
    hm.perform_each ht hcond hcmd sense (htest site) hentities hf hg (hrun site)
  refine ⟨⟨_, splitWords_join_words ?_, hends⟩, trans_of Beside hm₁ (beside_changed _ _), hcount⟩
  intro s hs
  simp only [List.mem_cons, List.mem_append] at hs
  rcases hs with rfl | rfl | rfl | rfl | hs | rfl | hs
  · rfl
  · rfl
  · exact splitWords_selectorOf ht
  · exact splitWords_senseWord sense
  · exact hsplit s (List.mem_append_left _ hs)
  · rfl
  · exact hsplit s (List.mem_append_right _ hs)

theorem Effects.effect_call {d : Nat} {path : String} (h : Effects (callFunction d) ls n m m') (hroom : Room n m) (hpath : IsName path)
    (hlines : Dict.find? path m.functions = some ls) : Effect (callFunction (d + 1)) (callLine path) n m m' := by
  refine ⟨⟨_, splitWords_callLine hpath, fun site ↦ ?_⟩, h.beside, h.count⟩
  rw [perform_function hpath.notTag]
  refine ends_call hlines hroom.unwatched ?_ (h.ends hroom _ _ _)
  rw [h.beside.eq]
  exact hroom.unwatched

end CommandPack.Machine
