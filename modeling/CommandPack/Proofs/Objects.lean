import Mathlib
import CommandPack.Proofs.Effects

/-!
Objects are markers with a tag, and with a number and a reference count as scores. The library makes, finds,
counts and removes them by commands that go through entities by their tags.
-/

namespace CommandPack

open Machine Stateful Text

/-- The words that commands about objects are made of. -/
structure ObjectNames where
  /-- The objectives of the objects' numbers and of their reference counts. -/
  idObjective : String
  refCount : String
  /-- The objective of the players. -/
  objective : String
  /-- The players that keep the last number, the argument and the result. -/
  counter : String
  arg : String
  ret : String
  /-- The tags of all objects, of the object being made and of the object fetched last. -/
  tag : String
  temp : String
  fetched : String

inductive ObjectOperation
  | create
  | fetch
  | retain
  | release
  | collect
deriving DecidableEq

def ObjectOperation.creations : ObjectOperation → Nat
  | create => 1
  | _ => 0

namespace ObjectNames

variable {word : String} {f : Int32 → Int32 → Int32} {ts : List String}

structure Valid (w : ObjectNames) : Prop where
  restricted : ∀ s ∈ [w.idObjective, w.refCount, w.objective, w.counter, w.arg, w.ret, w.tag, w.temp, w.fetched],
    isRestrictedText s = true
  objectives : w.idObjective ≠ w.refCount
  players : w.counter ≠ w.ret
  tags : [w.tag, w.temp, w.fetched].Nodup

variable (w : ObjectNames)

def newLines : List String :=
  [untagLine w.temp, untagLine w.fetched, scoreLine "add" w.counter w.objective "1",
    summonLine "minecraft:marker" w.tag w.temp w.fetched,
    operationLine (selectorOf w.temp) w.idObjective w.counter w.objective,
    scoreLine "set" (selectorOf w.temp) w.refCount "1",
    operationLine w.ret w.objective w.counter w.objective]

def fetchLines : List String :=
  [untagLine w.fetched,
    eachLine w.tag true ["score", "@s", w.idObjective, "=", w.arg, w.objective] ["tag", "@s", "add", w.fetched]]

def countLines (fetch word : String) : List String :=
  [callLine fetch, scoreLine word (selectorOf w.fetched) w.refCount "1"]

def collectLines : List String :=
  [eachLine w.tag false ["score", "@s", w.refCount, "matches", "1.."] ["kill", "@s"]]

def hasNumber (v : Option Int32) (e : Entity) : Bool :=
  e.shows w.tag && scoresAgree (Dict.find? w.idObjective e.scores) v

def forsaken (e : Entity) : Bool := e.shows w.tag && !(Dict.find? w.refCount e.scores).any (1 ≤ ·.toInt)

def refetched (v : Option Int32) (e : Entity) : Entity :=
  wherever (w.hasNumber v) (Entity.marked w.fetched) (wherever (·.alive) (Entity.without w.fetched) e)

def recounted (f : Int32 → Int32 → Int32) (v : Option Int32) (e : Entity) : Entity :=
  wherever (Entity.shows w.fetched) (Entity.rescored w.refCount fun n ↦ f (n.getD 0) 1) (w.refetched v e)

/-- The change of an entity before another object is made. -/
def cleared (e : Entity) : Entity :=
  wherever (·.alive) (Entity.without w.fetched) (wherever (·.alive) (Entity.without w.temp) e)

def furnished (n : Int32) (e : Entity) : Entity :=
  wherever (Entity.shows w.temp) (Entity.rescored w.refCount fun _ ↦ 1)
    (wherever (Entity.shows w.temp) (Entity.rescored w.idObjective fun _ ↦ n) e)

def nextNumber (m : Machine) : Int32 := (score? m (.player w.counter) w.objective).getD 0 + 1

variable {w} {m m' : Machine} {call : Call}

theorem Valid.isName (hw : w.Valid) {s : String}
    (hs : s ∈ [w.idObjective, w.refCount, w.objective, w.counter, w.arg, w.ret, w.tag, w.temp, w.fetched]) : IsName s :=
  isName_of_isRestrictedText (hw.restricted s hs)

theorem Valid.tag_ne (hw : w.Valid) : w.tag ≠ w.temp ∧ w.tag ≠ w.fetched ∧ w.temp ≠ w.fetched := by
  have htags := hw.tags
  simp only [List.nodup_cons, List.mem_cons, List.not_mem_nil, or_false, not_or] at htags
  exact ⟨htags.1.1, htags.1.2, htags.2.1⟩

theorem keepsId_refetched (v : Option Int32) : KeepsId (w.refetched v) := fun e ↦
  (keepsId_wherever (keepsId_marked _) _ _).trans (keepsId_wherever (keepsId_without _) _ e)

theorem keepsId_cleared : KeepsId w.cleared := fun e ↦
  (keepsId_wherever (keepsId_without _) _ _).trans (keepsId_wherever (keepsId_without _) _ e)

/-- The objectives of objects can be used. -/
structure Ready (w : ObjectNames) (m : Machine) : Prop where
  idObjective : Usable w.idObjective m
  refCount : Usable w.refCount m
  objective : Usable w.objective m

theorem Ready.beside (hr : w.Ready m) (h : Beside m m') : w.Ready m' :=
  ⟨h.usable hr.idObjective, h.usable hr.refCount, h.usable hr.objective⟩

theorem Ready.next (hr : w.Ready m.ticked) {l : String} {n : Nat} (h : Effect call l n m.ticked m') : w.Ready m'.ticked :=
  hr.beside (trans_of Beside h.beside (beside_ticked m'))

section Effects

variable (hw : w.Valid) (hm : m.Distinct) (hr : w.Ready m)

include hw hm hr

theorem effects_fetch :
    ∃ m', (∀ call, Effects call w.fetchLines 2 m m') ∧ m'.lastEntity = m.lastEntity ∧ m'.scores = m.scores ∧
      m'.entities = m.entities.map (w.refetched (score? m (.player w.arg) w.objective)) := by
  have hfetched : IsName w.fetched := hw.isName (by simp)
  have hidName : IsName w.idObjective := hw.isName (by simp)
  have harg : IsName w.arg := hw.isName (by simp)
  have hobj : IsName w.objective := hw.isName (by simp)
  let m₁ := m.ticked.changed (wherever (·.alive) (Entity.without w.fetched))
  let m₂ := (m₁.ticked.withObjective w.idObjective).withObjective w.objective
  let v := score? m (.player w.arg) w.objective
  have hready : w.Ready m₁.ticked := hr.beside
    (trans_of Beside (beside_ticked m) (trans_of Beside (beside_changed _ _) (beside_ticked m₁)))
  have hdistinct : m₁.ticked.Distinct := Distinct.changed (m := m.ticked) hm (keepsId_wherever (keepsId_without _) _)
  have hpick : w.hasNumber v = fun e ↦ e.shows w.tag && scoresAgree (Dict.find? w.idObjective e.scores) v == true := by
    funext e
    simp [hasNumber]
  refine ⟨m₂.changed (wherever (w.hasNumber v) (Entity.marked w.fetched)), fun call ↦ ?_, ?_, ?_, ?_⟩
  · refine .cons (effect_untag (m := m.ticked) hfetched hm) (.cons (a := 0) (b := 0) ?_ .nil)
    rw [hpick]
    refine effect_each (hw.restricted _ (by simp)) (.compare _ _ _ _ _ (by decide)) (by simp) ?_ hdistinct true
      (fun site ↦ test_own_eq hready.idObjective hready.objective harg.notSelector)
      (trans_of Beside (beside_withObjective _ _) (beside_withObjective _ _)) (by simp) (by simp) (fun e he ↦ ?_)
      (keepsId_marked w.fetched) (fun site e m' hm' ↦ hm'.perform_mark e.id {} w.fetched)
    · simp only [List.cons_append, List.nil_append, List.forall_mem_cons, hidName.split, harg.split, hobj.split,
        hfetched.split, true_and]
      exact ⟨rfl, rfl, rfl, rfl, rfl, rfl, by simp⟩
    · rw [ownScore_of_entity? _ (hdistinct.entity? he)]
      rfl
  · simp [m₂, m₁, Machine.changed, ticked]
  · simp [m₂, m₁, Machine.changed, ticked]
  · simp only [m₂, m₁, Machine.changed, ticked, entities_withObjective, List.map_map]
    rfl

theorem effects_collect :
    ∃ m', (∀ call, Effects call w.collectLines 1 m m') ∧ m'.lastEntity = m.lastEntity ∧ m'.scores = m.scores ∧
      m'.entities = m.entities.map (wherever w.forsaken Entity.removed) := by
  have hrefName : IsName w.refCount := hw.isName (by simp)
  have hready : w.Ready m.ticked := hr.beside (beside_ticked m)
  have hrange : Range.parse? "1.." = some ⟨some 1, none⟩ := rfl
  have hpick : w.forsaken = fun e ↦ e.shows w.tag &&
      ((Dict.find? w.refCount e.scores).any fun v ↦ (⟨some 1, none⟩ : Range).holds v.toInt) == false := by
    funext e
    simp [forsaken, Range.holds]
  refine ⟨(m.ticked.withObjective w.refCount).changed (wherever w.forsaken Entity.removed), fun call ↦ ?_, ?_, ?_, ?_⟩
  · refine .cons (b := 0) ?_ .nil
    rw [hpick]
    refine effect_each (m := m.ticked) (hw.restricted _ (by simp)) (.range ..) (by simp) ?_ hm false
      (fun site ↦ test_own_range hready.refCount hrange) (beside_withObjective _ _) (by simp) (by simp) (fun e he ↦ ?_)
      (fun _ ↦ rfl) (fun site e m' hm' ↦ hm'.perform_kill e.id {})
    · simp only [List.cons_append, List.nil_append, List.forall_mem_cons, hrefName.split, true_and]
      exact ⟨rfl, rfl, rfl, rfl, rfl, rfl, by simp⟩
    · rw [ownScore_of_entity? _ (Distinct.entity? (m := m.ticked) hm he)]
  · simp [Machine.changed, ticked]
  · simp [Machine.changed, ticked]
  · simp [Machine.changed, ticked]

theorem effects_recount (hroom : Room 4 m) {d : Nat} {fetch : String}
    (hfetch : IsName fetch) (hlines : Dict.find? fetch m.functions = some w.fetchLines) (hword : Assigns word f) :
    ∃ m', Effects (callFunction (d + 1)) (w.countLines fetch word) 4 m m' ∧ m'.lastEntity = m.lastEntity ∧
      m'.scores = m.scores ∧ m'.entities = m.entities.map (w.recounted f (score? m (.player w.arg) w.objective)) := by
  obtain ⟨m₁, heffects, hlast, hscores, hentities⟩ := effects_fetch (m := m.ticked) hw hm (hr.beside (beside_ticked m))
  have hcall : Effect (callFunction (d + 1)) (callLine fetch) 2 m.ticked m₁ :=
    (heffects _).effect_call ((beside_ticked m).room hroom rfl (by decide)) hfetch hlines
  have hdistinct : m₁.ticked.Distinct := by
    have hchanged := Distinct.changed (m := m.ticked) hm
      (keepsId_refetched (w := w) (score? m.ticked (.player w.arg) w.objective))
    rw [Distinct, Machine.changed, ← hentities] at hchanged
    exact hchanged
  have hready : w.Ready m₁.ticked := hr.beside (trans_of Beside hcall.beside_ticked (beside_ticked _))
  refine ⟨_, .cons hcall (.cons (b := 0) (effect_assign hword (hw.restricted _ (by simp)) (hw.isName (by simp)) hdistinct
    hready.refCount) .nil), ?_, ?_, ?_⟩
  · simp [Machine.changed, ticked, hlast]
  · simp [Machine.changed, ticked, hscores]
  · simp only [Machine.changed, entities_withObjective, ticked, hentities, List.map_map]
    rfl

theorem effects_create (hids : ∀ e ∈ m.entities, e.id ≤ m.lastEntity) :
    ∃ m' pos, (∀ call, Effects call w.newLines 7 m m') ∧ m'.lastEntity = m.lastEntity + 1 ∧
      (∀ p o, score? m' (.player p) o =
        if (p = w.ret ∨ p = w.counter) ∧ o = w.objective then some (w.nextNumber m) else score? m (.player p) o) ∧
      m'.entities = (m.entities.map w.cleared ++
        [newcomer m "minecraft:marker" w.tag w.temp w.fetched pos]).map (w.furnished (w.nextNumber m)) := by
  have htag : isRestrictedText w.tag = true := hw.restricted _ (by simp)
  have htemp : isRestrictedText w.temp = true := hw.restricted _ (by simp)
  have hfetched : isRestrictedText w.fetched = true := hw.restricted _ (by simp)
  have hobj : IsName w.objective := hw.isName (by simp)
  have hcounter : IsName w.counter := hw.isName (by simp)
  obtain ⟨htagTemp, htagFetched, htempFetched⟩ := hw.tag_ne
  obtain ⟨pos, hsummon⟩ := effect_summon "minecraft:marker" rfl htag htemp hfetched htagTemp htagFetched htempFetched
  let m₁ := m.ticked.changed (wherever (·.alive) (Entity.without w.temp))
  let m₂ := m₁.ticked.changed (wherever (·.alive) (Entity.without w.fetched))
  let m₃ := setScore (m₂.ticked.withObjective w.objective) (.player w.counter) w.objective (w.nextNumber m)
  let m₄ := m₃.ticked.joined (newcomer m "minecraft:marker" w.tag w.temp w.fetched pos)
  let m₅ := ((m₄.ticked.withObjective w.idObjective).withObjective w.objective).changed
    (wherever (Entity.shows w.temp) (Entity.rescored w.idObjective fun _ ↦ w.nextNumber m))
  let m₆ := (m₅.ticked.withObjective w.refCount).changed
    (wherever (Entity.shows w.temp) (Entity.rescored w.refCount fun _ ↦ 1))
  let m₇ := setScore ((m₆.ticked.withObjective w.objective).withObjective w.objective) (.player w.ret) w.objective
    (w.nextNumber m)
  have hentities₃ : m₃.ticked.entities = m.entities.map w.cleared := by
    simp only [m₃, m₂, m₁, Machine.changed, ticked, setScore, entities_withObjective, List.map_map]
    rfl
  have hlast₃ : m₃.ticked.lastEntity = m.lastEntity := by simp [m₃, m₂, m₁, Machine.changed, ticked, setScore]
  have hscores₄ (p o : String) : score? m₄.ticked (.player p) o =
      if p = w.counter ∧ o = w.objective then some (w.nextNumber m) else score? m (.player p) o := by
    change score? m₃ (.player p) o = _
    rw [score?_setScore_player, score?_withObjective]
    simp only [eq_comm]
    rfl
  have hscores₆ (p o : String) : score? m₆.ticked (.player p) o = score? m₄.ticked (.player p) o := by
    simp [m₆, m₅, score?, Machine.changed, ticked]
  have hcounter₄ : (score? m₄.ticked (.player w.counter) w.objective).getD 0 = w.nextNumber m := by simp [hscores₄]
  refine ⟨m₇, pos, fun call ↦ ?_, ?_, ?_, ?_⟩
  · have hd₁ : m₁.ticked.Distinct := Distinct.changed (m := m.ticked) hm (keepsId_wherever (keepsId_without _) _)
    have hd₃ : m₃.ticked.Distinct := by
      rw [Distinct, hentities₃]
      exact hm.changed keepsId_cleared
    have hd₄ : m₄.ticked.Distinct := by
      refine hd₃.joined (fun e he ↦ ?_) (by rw [hlast₃]; rfl)
      rw [hentities₃] at he
      obtain ⟨x, hx, rfl⟩ := List.mem_map.1 he
      rw [keepsId_cleared, hlast₃]
      exact hids x hx
    have hd₅ : m₅.ticked.Distinct :=
      ((hd₄.withObjective _).withObjective _).changed (keepsId_wherever (keepsId_rescored _ _) _)
    have h₁ : Effect call (untagLine w.temp) 0 m.ticked m₁ := effect_untag (m := m.ticked) (hw.isName (by simp)) hm
    have hr₁ := (hr.beside (beside_ticked m)).next h₁
    have h₂ : Effect call (untagLine w.fetched) 0 m₁.ticked m₂ := effect_untag (hw.isName (by simp)) hd₁
    have hr₂ := hr₁.next h₂
    have h₃ : Effect call (scoreLine "add" w.counter w.objective "1") 0 m₂.ticked m₃ :=
      effect_increment hcounter hobj hr₂.objective
    have hr₃ := hr₂.next h₃
    have h₄ : Effect call (summonLine "minecraft:marker" w.tag w.temp w.fetched) 0 m₃.ticked m₄ := by
      have heffect := hsummon call m₃.ticked
      rwa [newcomer, hlast₃] at heffect
    have hr₄ := hr₃.next h₄
    have h₅ : Effect call (operationLine (selectorOf w.temp) w.idObjective w.counter w.objective) 0 m₄.ticked m₅ := by
      have heffect : Effect call (operationLine (selectorOf w.temp) w.idObjective w.counter w.objective) 0 m₄.ticked _ :=
        effect_share htemp (hw.isName (by simp)) hcounter hobj hd₄ hr₄.idObjective hr₄.objective
      rwa [hcounter₄] at heffect
    have hr₅ := hr₄.next h₅
    have h₆ : Effect call (scoreLine "set" (selectorOf w.temp) w.refCount "1") 0 m₅.ticked m₆ :=
      effect_assign .set htemp (hw.isName (by simp)) hd₅ hr₅.refCount
    have hr₆ := hr₅.next h₆
    have h₇ : Effect call (operationLine w.ret w.objective w.counter w.objective) 0 m₆.ticked m₇ := by
      have heffect : Effect call (operationLine w.ret w.objective w.counter w.objective) 0 m₆.ticked _ :=
        effect_copy (hw.isName (by simp)) hobj hcounter hobj hr₆.objective hr₆.objective
      rwa [hscores₆, hcounter₄] at heffect
    exact .cons h₁ (.cons h₂ (.cons h₃ (.cons h₄ (.cons h₅ (.cons h₆ (.cons h₇ .nil))))))
  · have hlast₇ : m₇.lastEntity = m₃.ticked.lastEntity + 1 := by
      simp [m₇, m₆, m₅, m₄, Machine.changed, joined, ticked, setScore]
    rw [hlast₇, hlast₃]
  · intro p o
    rw [score?_setScore_player, score?_withObjective, score?_withObjective, hscores₆, hscores₄]
    by_cases hp : p = w.ret <;> by_cases ho : o = w.objective <;> simp [hp, ho, eq_comm]
  · have hentities₇ : m₇.entities = (m₃.ticked.entities ++
        [newcomer m "minecraft:marker" w.tag w.temp w.fetched pos]).map (w.furnished (w.nextNumber m)) := by
      simp only [m₇, m₆, m₅, m₄, Machine.changed, joined, ticked, setScore, entities_withObjective, List.map_map]
      rfl
    rw [hentities₇, hentities₃]

end Effects

variable {v : Option Int32} {e : Entity}

theorem retagged_refetched (w : ObjectNames) (v : Option Int32) (e : Entity) : e.Retagged [w.fetched] (w.refetched v e) :=
  (Entity.Retagged.wherever (retagged_without (by simp)) _ e).trans
    (Entity.Retagged.wherever (retagged_marked (by simp)) _ _)

theorem retagged_cleared (w : ObjectNames) (e : Entity) : e.Retagged [w.temp, w.fetched] (w.cleared e) :=
  (Entity.Retagged.wherever (retagged_without (by simp)) _ e).trans
    (Entity.Retagged.wherever (retagged_without (by simp)) _ _)

theorem nodup_refetched (he : e.tags.Nodup) : (w.refetched v e).tags.Nodup := by
  have h₁ := nodup_wherever (f := Entity.without w.fetched) (p := (·.alive)) he (nodup_without he _)
  exact nodup_wherever h₁ (nodup_marked h₁ _)

theorem hasNumber_retagged {e' : Entity} (h : e.Retagged ts e') (ht : w.tag ∉ ts) :
    w.hasNumber v e' = w.hasNumber v e := by
  rw [hasNumber, hasNumber, h.shows ht, h.scores]

theorem shows_refetched (hw : w.Valid) (he : e.tags.Nodup) : (w.refetched v e).shows w.fetched = w.hasNumber v e := by
  have htag : w.tag ∉ [w.fetched] := by simpa using hw.tag_ne.2.1
  have hsame := hasNumber_retagged (v := v) (.wherever (retagged_without (List.mem_singleton_self w.fetched)) (·.alive) e) htag
  rw [refetched, wherever, hsame]
  split
  · rename_i hnumber
    rw [hnumber]
    refine shows_marked ?_ _
    rw [← hsame, hasNumber, Entity.shows] at hnumber
    simp only [Bool.and_eq_true] at hnumber
    exact hnumber.1.1
  · rename_i hnumber
    rw [shows_without he]
    simpa using hnumber

theorem nodup_cleared (he : e.tags.Nodup) : (w.cleared e).tags.Nodup := by
  have h₁ := nodup_wherever (f := Entity.without w.temp) (p := (·.alive)) he (nodup_without he _)
  exact nodup_wherever h₁ (nodup_without h₁ _)

theorem shows_cleared (hw : w.Valid) (he : e.tags.Nodup) :
    (w.cleared e).shows w.temp = false ∧ (w.cleared e).shows w.fetched = false := by
  have h₁ := nodup_wherever (f := Entity.without w.temp) (p := (·.alive)) he (nodup_without he _)
  refine ⟨?_, shows_without h₁ _⟩
  have hsame := Entity.Retagged.shows (t := w.temp)
    (.wherever (retagged_without (List.mem_singleton_self w.fetched)) (·.alive) (wherever (·.alive) (Entity.without w.temp) e))
    (by simpa using hw.tag_ne.2.2)
  exact hsame.trans (shows_without he _)

theorem furnished_cleared (hw : w.Valid) (he : e.tags.Nodup) (n : Int32) : w.furnished n (w.cleared e) = w.cleared e := by
  simp [furnished, wherever, (shows_cleared hw he).1]

def newborn (w : ObjectNames) (m : Machine) (n : Int32) (pos : Machine.Position) : Entity :=
  { newcomer m "minecraft:marker" w.tag w.temp w.fetched pos with
    scores := Dict.insert w.refCount 1 (Dict.insert w.idObjective n []) }

theorem tags_newcomer (m : Machine) (type a b c : String) (pos : Machine.Position) : (newcomer m type a b c pos).tags = [a, b, c] := by
  have htags : (Entity.summoned (m.lastEntity + 1) type pos).tags = [] := rfl
  simp only [newcomer, tags_addTag, htags, List.nil_append, List.cons_append]

theorem furnished_newcomer (w : ObjectNames) (m : Machine) (n : Int32) (pos : Machine.Position) :
    w.furnished n (newcomer m "minecraft:marker" w.tag w.temp w.fetched pos) = w.newborn m n pos := by
  have hshows : (newcomer m "minecraft:marker" w.tag w.temp w.fetched pos).shows w.temp = true := by
    rw [Entity.shows, tags_newcomer]
    simp [newcomer, Entity.addTag, Entity.summoned]
  have hshows' : (Entity.rescored w.idObjective (fun _ ↦ n)
      (newcomer m "minecraft:marker" w.tag w.temp w.fetched pos)).shows w.temp = true := hshows
  simp only [furnished, wherever, hshows, if_true, hshows']
  rfl

/-- Objects have numbers that were given out, no two the same, and reference counts. -/
structure Kept (w : ObjectNames) (m : Machine) : Prop where
  distinct : m.Distinct
  ids : ∀ e ∈ m.entities, e.id ≤ m.lastEntity
  tags : ∀ e ∈ m.entities, e.tags.Nodup
  numbers : ∀ e ∈ m.entities, e.shows w.tag = true → ∃ n, Dict.find? w.idObjective e.scores = some n ∧
    1 ≤ n.toInt ∧ n.toInt ≤ ((score? m (.player w.counter) w.objective).getD 0).toInt
  counts : ∀ e ∈ m.entities, e.shows w.tag = true → ∃ c, Dict.find? w.refCount e.scores = some c
  apart : ∀ e ∈ m.entities, ∀ e' ∈ m.entities, e.shows w.tag = true → e'.shows w.tag = true →
    Dict.find? w.idObjective e.scores = Dict.find? w.idObjective e'.scores → e = e'

/-- A change of an entity that makes no object and takes no number or count from one. -/
structure Harmless (w : ObjectNames) (e e' : Entity) : Prop where
  id : e'.id = e.id
  tags : e'.tags.Nodup
  shows : e'.shows w.tag = true → e.shows w.tag = true
  number : Dict.find? w.idObjective e'.scores = Dict.find? w.idObjective e.scores
  count : (Dict.find? w.refCount e.scores).isSome = true → (Dict.find? w.refCount e'.scores).isSome = true

theorem Kept.changed (h : w.Kept m) {f : Entity → Entity} (hf : ∀ e ∈ m.entities, w.Harmless e (f e))
    (hentities : m'.entities = m.entities.map f) (hlast : m'.lastEntity = m.lastEntity)
    (hcounter : score? m' (.player w.counter) w.objective = score? m (.player w.counter) w.objective) : w.Kept m' := by
  have hmem {e' : Entity} (he' : e' ∈ m'.entities) : ∃ e ∈ m.entities, f e = e' := by
    rw [hentities] at he'
    exact List.mem_map.1 he'
  refine ⟨?_, ?_, ?_, ?_, ?_, ?_⟩
  · have hids : m'.entities.map (·.id) = m.entities.map (·.id) := by
      rw [hentities, List.map_map]
      exact List.map_congr_left fun e he ↦ (hf e he).id
    rw [Distinct, hids]
    exact h.distinct
  · intro e' he'
    obtain ⟨e, he, rfl⟩ := hmem he'
    rw [(hf e he).id, hlast]
    exact h.ids e he
  · intro e' he'
    obtain ⟨e, he, rfl⟩ := hmem he'
    exact (hf e he).tags
  · intro e' he' hshows
    obtain ⟨e, he, rfl⟩ := hmem he'
    rw [(hf e he).number, hcounter]
    exact h.numbers e he ((hf e he).shows hshows)
  · intro e' he' hshows
    obtain ⟨e, he, rfl⟩ := hmem he'
    obtain ⟨c, hc⟩ := h.counts e he ((hf e he).shows hshows)
    exact Option.isSome_iff_exists.1 ((hf e he).count (by simp [hc]))
  · intro e₁ he₁ e₂ he₂ hshows₁ hshows₂ hnumber
    obtain ⟨e, he, rfl⟩ := hmem he₁
    obtain ⟨e', he', rfl⟩ := hmem he₂
    rw [(hf e he).number, (hf e' he').number] at hnumber
    rw [h.apart e he e' he' ((hf e he).shows hshows₁) ((hf e' he').shows hshows₂) hnumber]

theorem harmless_of_retagged {e' : Entity} (h : e.Retagged ts e') (ht : w.tag ∉ ts) (hnodup : e'.tags.Nodup) :
    w.Harmless e e' :=
  ⟨h.id, hnodup, fun hshows ↦ (h.shows ht).symm.trans hshows, by rw [h.scores], by rw [h.scores]; exact id⟩

theorem harmless_refetched (hw : w.Valid) (he : e.tags.Nodup) : w.Harmless e (w.refetched v e) :=
  harmless_of_retagged (retagged_refetched w v e) (by simpa using hw.tag_ne.2.1) (nodup_refetched he)

theorem recounted_eq (hw : w.Valid) (f : Int32 → Int32 → Int32) (he : e.tags.Nodup) : w.recounted f v e =
    if w.hasNumber v e then (w.refetched v e).rescored w.refCount fun n ↦ f (n.getD 0) 1 else w.refetched v e := by
  rw [recounted, wherever, shows_refetched hw he]

theorem harmless_recounted (hw : w.Valid) (f : Int32 → Int32 → Int32) (he : e.tags.Nodup) :
    w.Harmless e (w.recounted f v e) := by
  have h := harmless_refetched (v := v) hw he
  rw [recounted_eq hw f he]
  split
  · refine ⟨h.id, h.tags, h.shows, ?_, fun _ ↦ by simp [Entity.rescored]⟩
    rw [← h.number]
    simp [Entity.rescored, hw.objectives.symm]
  · exact h

theorem harmless_collected (he : e.tags.Nodup) : w.Harmless e (wherever w.forsaken Entity.removed e) := by
  rw [wherever]
  split
  · exact ⟨rfl, he, by simp [Entity.shows, Entity.removed], rfl, id⟩
  · exact ⟨rfl, he, id, rfl, id⟩

def lines (w : ObjectNames) (paths : ObjectOperation → String) : ObjectOperation → List String
  | .create => w.newLines
  | .fetch => w.fetchLines
  | .retain => w.countLines (paths .fetch) "add"
  | .release => w.countLines (paths .fetch) "remove"
  | .collect => w.collectLines

/-- A machine that runs nothing, is not watched and has room for any operation. -/
structure Free (w : ObjectNames) (m : Machine) : Prop where
  idle : m.running = false
  unwatched : m.observer = none
  depth : 2 ≤ m.maxDepth
  budget : m.maxCommands ≤ 0 ∨ 7 ≤ m.maxCommands
  ready : w.Ready m

/-- A machine that has the operations and room to run them. -/
structure Hosts (w : ObjectNames) (paths : ObjectOperation → String) (m : Machine) : Prop extends w.Free m where
  lines (op : ObjectOperation) : Dict.find? (paths op) m.functions = some (w.lines paths op)

/-- An entity before and after the reference count of the object with a number was changed. -/
def Recounts (w : ObjectNames) (f : Int32 → Int32 → Int32) (v : Option Int32) (e e' : Entity) : Prop :=
  ∃ x, e.Retagged [w.fetched] x ∧
    e' = if w.hasNumber v e then x.rescored w.refCount fun n ↦ f (n.getD 0) 1 else x

/-- An entity before and after objects without references were removed. -/
def Collects (w : ObjectNames) (e e' : Entity) : Prop :=
  (e.shows w.tag = true ∧ ∃ c, Dict.find? w.refCount e.scores = some c ∧ c.toInt < 1) ∧ e' = e.removed ∨
    ¬ (e.shows w.tag = true ∧ ∃ c, Dict.find? w.refCount e.scores = some c ∧ c.toInt < 1) ∧ e' = e

/-- What an operation promises about the machines before and after it. -/
def Done (w : ObjectNames) (m m' : Machine) : ObjectOperation → Prop
  | .create => ∃ es e, m'.entities = es ++ [e] ∧ List.Forall₂ (Entity.Retagged [w.temp, w.fetched]) m.entities es ∧
      (∀ x ∈ m.entities, x.id ≠ e.id) ∧ e.shows w.tag = true ∧
      Dict.find? w.idObjective e.scores = some (w.nextNumber m) ∧
      score? m' (.player w.ret) w.objective = some (w.nextNumber m) ∧
      score? m' (.player w.counter) w.objective = some (w.nextNumber m) ∧
      ∀ x ∈ m'.entities, x.shows w.fetched = true ↔ x = e
  | .fetch => List.Forall₂ (Entity.Retagged [w.fetched]) m.entities m'.entities ∧
      ∀ x ∈ m'.entities, x.shows w.fetched = true ↔ x.shows w.tag = true ∧
        ∃ v, score? m (.player w.arg) w.objective = some v ∧ Dict.find? w.idObjective x.scores = some v
  | .retain => List.Forall₂ (w.Recounts (· + ·) (score? m (.player w.arg) w.objective)) m.entities m'.entities
  | .release => List.Forall₂ (w.Recounts (· - ·) (score? m (.player w.arg) w.objective)) m.entities m'.entities
  | .collect => List.Forall₂ w.Collects m.entities m'.entities

variable {paths : ObjectOperation → String} {op : ObjectOperation}

def begun (m : Machine) : Machine := { m with running := true, cancelled := false, count := 0 }

theorem Hosts.room (h : w.Hosts paths m) {k : Nat} (hk : k ≤ 7) : Room k (begun m) := by
  refine ⟨h.unwatched, rfl, ?_⟩
  have hbudget := h.budget
  simp only [begun]
  push_cast
  omega

theorem Hosts.run_of_effects (h : w.Hosts paths m) {d n : Nat} (hd : m.maxDepth.toNat = d + 1) (hn : n ≤ 7)
    (heffects : Effects (callFunction d) (w.lines paths op) n (begun m) m') :
    m.run (paths op) = (.ok (), m'.finish) := by
  refine run_of_ends h.idle ?_
  rw [hd]
  refine ends_call (h.lines op) h.unwatched ?_ (heffects.ends (h.room hn) _ _ _)
  rw [heffects.beside.eq]
  exact h.unwatched

theorem Hosts.ready_begun (h : w.Hosts paths m) : w.Ready (begun m) :=
  ⟨h.ready.idObjective, h.ready.refCount, h.ready.objective⟩

theorem Hosts.of_setup (h : w.Hosts paths m) (hsetup : m'.toSetup = m.toSetup) (hmax : m'.maxCommands = m.maxCommands)
    (hidle : m'.running = false) (hready : w.Ready m') : w.Hosts paths m' := by
  refine ⟨⟨hidle, ?_, ?_, ?_, hready⟩, ?_⟩
  · rw [show m'.observer = m.observer from congrArg Setup.observer hsetup]
    exact h.unwatched
  · rw [show m'.maxDepth = m.maxDepth from congrArg Setup.maxDepth hsetup]
    exact h.depth
  · rw [hmax]
    exact h.budget
  · rw [show m'.functions = m.functions from congrArg Setup.functions hsetup]
    exact h.lines

theorem Hosts.finish (h : w.Hosts paths m) (hm' : Beside (begun m) m') : w.Hosts paths m'.finish := by
  have hready := h.ready_begun.beside hm'
  refine h.of_setup ?_ ?_ rfl ⟨hready.idObjective, hready.refCount, hready.objective⟩
  · rw [show m'.finish.toSetup = m'.toSetup from rfl, hm'.eq]
    rfl
  · rw [show m'.finish.maxCommands = m'.maxCommands from rfl, hm'.eq]
    rfl

def lastNumber (w : ObjectNames) (m : Machine) : Int := ((score? m (.player w.counter) w.objective).getD 0).toInt

theorem Hosts.depth_eq (h : w.Hosts paths m) : ∃ d, m.maxDepth.toNat = d + 2 :=
  ⟨m.maxDepth.toNat - 2, by have := h.depth; omega⟩

theorem scoresAgree_iff {a b : Option Int32} : scoresAgree a b = true ↔ ∃ v, b = some v ∧ a = some v := by
  cases a with
  | none => simp [scoresAgree]
  | some x =>
    simp only [scoresAgree, Option.isSome_some, Bool.true_and, beq_iff_eq]
    constructor
    · rintro rfl
      exact ⟨x, rfl, rfl⟩
    · rintro ⟨y, rfl, hxy⟩
      exact hxy

/-- An operation that changes entities one by one, and scores of players not at all. -/
theorem Kept.run_changed (hk : w.Kept m) (hh : w.Hosts paths m) (op : ObjectOperation) {d n : Nat}
    (hd : m.maxDepth.toNat = d + 1) (heffects : Effects (callFunction d) (w.lines paths op) n (begun m) m')
    (hn : n ≤ 7) {g : Entity → Entity}
    (hchanged : m'.lastEntity = m.lastEntity ∧ m'.scores = m.scores ∧ m'.entities = m.entities.map g)
    (hg : ∀ e ∈ m.entities, w.Harmless e (g e)) :
    ∃ m', m.run (paths op) = (.ok (), m') ∧ w.Hosts paths m' ∧ w.Kept m' ∧ w.lastNumber m' = w.lastNumber m ∧
      m'.entities = m.entities.map g := by
  obtain ⟨hlast, hscores, hentities⟩ := hchanged
  have hcounter : score? m'.finish (.player w.counter) w.objective = score? m (.player w.counter) w.objective := by
    simp only [score?, Machine.finish, hscores]
  exact ⟨m'.finish, hh.run_of_effects hd hn heffects, hh.finish heffects.beside, hk.changed hg hentities hlast hcounter,
    by rw [lastNumber, lastNumber, hcounter], hentities⟩

theorem forall₂_map {R : Entity → Entity → Prop} {g : Entity → Entity} {es : List Entity} (h : ∀ e ∈ es, R e (g e)) :
    List.Forall₂ R es (es.map g) := List.forall₂_map_right_iff.2 (List.forall₂_same.2 h)

theorem Kept.run_fetch (hk : w.Kept m) (hw : w.Valid) (hh : w.Hosts paths m) :
    ∃ m', m.run (paths .fetch) = (.ok (), m') ∧ w.Hosts paths m' ∧ w.Kept m' ∧ w.lastNumber m' = w.lastNumber m ∧
      w.Done m m' .fetch := by
  obtain ⟨d, hd⟩ := hh.depth_eq
  obtain ⟨m₁, heffects, hchanged⟩ := effects_fetch (m := begun m) hw hk.distinct hh.ready_begun
  obtain ⟨m', hrun, hhosts, hkept, hnumber, hentities⟩ := hk.run_changed hh .fetch hd (heffects _) (by decide) hchanged
    fun e he ↦ harmless_refetched hw (hk.tags e he)
  refine ⟨m', hrun, hhosts, hkept, hnumber, ?_, fun x hx ↦ ?_⟩
  · rw [hentities]
    exact forall₂_map fun e _ ↦ retagged_refetched w _ e
  · rw [hentities] at hx
    obtain ⟨e, he, rfl⟩ := List.mem_map.1 hx
    have hretagged := retagged_refetched w (score? (begun m) (.player w.arg) w.objective) e
    rw [shows_refetched hw (hk.tags e he), hasNumber, Bool.and_eq_true, scoresAgree_iff, hretagged.scores,
      hretagged.shows (by simpa using hw.tag_ne.2.1)]
    rfl

theorem Kept.run_recount (hk : w.Kept m) (hw : w.Valid) (hh : w.Hosts paths m) (hfetch : IsName (paths .fetch))
    (hword : Assigns word f) (hlines : w.lines paths op = w.countLines (paths .fetch) word) :
    ∃ m', m.run (paths op) = (.ok (), m') ∧ w.Hosts paths m' ∧ w.Kept m' ∧ w.lastNumber m' = w.lastNumber m ∧
      List.Forall₂ (w.Recounts f (score? m (.player w.arg) w.objective)) m.entities m'.entities := by
  obtain ⟨d, hd⟩ := hh.depth_eq
  obtain ⟨m₁, heffects, hchanged⟩ := effects_recount (m := begun m) (d := d) hw hk.distinct hh.ready_begun
    (hh.room (by decide)) hfetch (hh.lines .fetch) hword
  rw [← hlines] at heffects
  obtain ⟨m', hrun, hhosts, hkept, hnumber, hentities⟩ := hk.run_changed hh op hd heffects (by decide) hchanged
    fun e he ↦ harmless_recounted hw f (hk.tags e he)
  refine ⟨m', hrun, hhosts, hkept, hnumber, ?_⟩
  rw [hentities]
  refine forall₂_map fun e he ↦ ?_
  exact ⟨w.refetched (score? m (.player w.arg) w.objective) e, retagged_refetched w _ e, recounted_eq hw f (hk.tags e he)⟩

theorem Kept.run_collect (hk : w.Kept m) (hw : w.Valid) (hh : w.Hosts paths m) :
    ∃ m', m.run (paths .collect) = (.ok (), m') ∧ w.Hosts paths m' ∧ w.Kept m' ∧ w.lastNumber m' = w.lastNumber m ∧
      w.Done m m' .collect := by
  obtain ⟨d, hd⟩ := hh.depth_eq
  obtain ⟨m₁, heffects, hchanged⟩ := effects_collect (m := begun m) hw hk.distinct hh.ready_begun
  obtain ⟨m', hrun, hhosts, hkept, hnumber, hentities⟩ := hk.run_changed hh .collect hd (heffects _) (by decide) hchanged
    fun e he ↦ harmless_collected (hk.tags e he)
  refine ⟨m', hrun, hhosts, hkept, hnumber, ?_⟩
  rw [Done, hentities]
  refine forall₂_map fun e he ↦ ?_
  have hiff : w.forsaken e = true ↔
      e.shows w.tag = true ∧ ∃ c, Dict.find? w.refCount e.scores = some c ∧ c.toInt < 1 := by
    rw [forsaken, Bool.and_eq_true]
    refine and_congr_right fun hshows ↦ ?_
    obtain ⟨c, hc⟩ := hk.counts e he hshows
    simp [hc]
  rw [wherever]
  split
  · rename_i hlone
    exact .inl ⟨hiff.1 hlone, rfl⟩
  · rename_i hlone
    exact .inr ⟨fun h ↦ hlone (hiff.2 h), rfl⟩

theorem toInt_nextNumber (h : w.lastNumber m + 1 < 2 ^ 31) : (w.nextNumber m).toInt = w.lastNumber m + 1 := by
  have hle := Int32.le_toInt ((score? m (.player w.counter) w.objective).getD 0)
  have hone : (1 : Int32).toInt = 1 := rfl
  rw [lastNumber] at h
  rw [nextNumber, lastNumber, Int32.toInt_add, hone]
  exact Int.bmod_eq_of_le (by omega) (by omega)

theorem shows_newborn (w : ObjectNames) (m : Machine) (n : Int32) (pos : Machine.Position) {t : String}
    (ht : t ∈ [w.tag, w.temp, w.fetched]) : (w.newborn m n pos).shows t = true := by
  have htags : (w.newborn m n pos).tags = [w.tag, w.temp, w.fetched] :=
    tags_newcomer m "minecraft:marker" _ _ _ pos
  rw [Entity.shows, htags]
  simpa [newborn, newcomer, Entity.addTag, Entity.summoned] using ht

/-- A newcomer with the next number, which is above all that were given out. -/
theorem Kept.joined (hk : w.Kept m) (hentities : m'.entities = m.entities ++ [e]) (hid : e.id = m.lastEntity + 1)
    (hlast : m'.lastEntity = m.lastEntity + 1) (htags : e.tags.Nodup) {n c : Int32}
    (hn : Dict.find? w.idObjective e.scores = some n) (hnext : n.toInt = w.lastNumber m + 1)
    (hfirst : 0 ≤ w.lastNumber m) (hnumber : w.lastNumber m' = w.lastNumber m + 1)
    (hc : Dict.find? w.refCount e.scores = some c) : w.Kept m' := by
  have hcases {x : Entity} (hx : x ∈ m'.entities) : x ∈ m.entities ∨ x = e := by
    rwa [hentities, List.mem_append, List.mem_singleton] at hx
  have hfresh (x : Entity) (hx : x ∈ m.entities) (hshows : x.shows w.tag = true) :
      Dict.find? w.idObjective x.scores ≠ Dict.find? w.idObjective e.scores := by
    obtain ⟨n', hn', -, hle⟩ := hk.numbers x hx hshows
    rw [← lastNumber] at hle
    rw [hn', hn]
    rintro ⟨⟩
    omega
  refine ⟨?_, fun x hx ↦ ?_, fun x hx ↦ ?_, fun x hx hshows ↦ ?_, fun x hx hshows ↦ ?_,
    fun x hx y hy hshows hshows' hsame ↦ ?_⟩
  · rw [Distinct, hentities]
    exact hk.distinct.joined hk.ids hid
  · rw [hlast]
    rcases hcases hx with hx | rfl
    · exact (hk.ids x hx).trans (Nat.le_succ _)
    · exact hid.le
  · rcases hcases hx with hx | rfl
    · exact hk.tags x hx
    · exact htags
  · rw [← lastNumber, hnumber]
    rcases hcases hx with hx | rfl
    · obtain ⟨n', hn', hpos, hle⟩ := hk.numbers x hx hshows
      rw [← lastNumber] at hle
      exact ⟨n', hn', hpos, by omega⟩
    · exact ⟨n, hn, by omega, by omega⟩
  · rcases hcases hx with hx | rfl
    · exact hk.counts x hx hshows
    · exact ⟨c, hc⟩
  · rcases hcases hx with hx | rfl
    · rcases hcases hy with hy | rfl
      · exact hk.apart x hx y hy hshows hshows' hsame
      · exact absurd hsame (hfresh x hx hshows)
    · rcases hcases hy with hy | rfl
      · exact absurd hsame.symm (hfresh y hy hshows')
      · rfl

theorem Kept.create (hk : w.Kept m) (hw : w.Valid) (hnext : w.lastNumber m + 1 < 2 ^ 31) (hfirst : 0 ≤ w.lastNumber m)
    {pos : Machine.Position} (hentities : m'.entities = m.entities.map w.cleared ++ [w.newborn m (w.nextNumber m) pos])
    (hlast : m'.lastEntity = m.lastEntity + 1) (hnumber : w.lastNumber m' = w.lastNumber m + 1) : w.Kept m' := by
  have hcleared : w.Kept (m.changed w.cleared) := by
    refine hk.changed (f := w.cleared) (fun e he ↦ ?_) rfl rfl rfl
    exact harmless_of_retagged (retagged_cleared w e) (by simpa using ⟨hw.tag_ne.1, hw.tag_ne.2.1⟩)
      (nodup_cleared (hk.tags e he))
  refine hcleared.joined hentities rfl hlast ?_ (n := w.nextNumber m) (c := 1) ?_ (toInt_nextNumber hnext) hfirst hnumber ?_
  · rw [show (w.newborn m (w.nextNumber m) pos).tags = _ from tags_newcomer m "minecraft:marker" _ _ _ pos]
    exact hw.tags
  · simp [newborn, hw.objectives.symm]
  · simp [newborn]

theorem Kept.run_create (hk : w.Kept m) (hw : w.Valid) (hh : w.Hosts paths m) (hnext : w.lastNumber m + 1 < 2 ^ 31)
    (hfirst : 0 ≤ w.lastNumber m) :
    ∃ m', m.run (paths .create) = (.ok (), m') ∧ w.Hosts paths m' ∧ w.Kept m' ∧ w.lastNumber m' = w.lastNumber m + 1 ∧
      w.Done m m' .create := by
  obtain ⟨d, hd⟩ := hh.depth_eq
  obtain ⟨m₁, pos, heffects, hlast, hscores, hentities⟩ := effects_create (m := begun m) hw hk.distinct hh.ready_begun hk.ids
  have hentities' : m₁.entities = m.entities.map w.cleared ++ [w.newborn m (w.nextNumber m) pos] := by
    rw [hentities, List.map_append, List.map_singleton, furnished_newcomer, List.map_map]
    congr 1
    exact List.map_congr_left fun e he ↦ furnished_cleared hw (hk.tags e he) _
  have hcounter : score? m₁.finish (.player w.counter) w.objective = some (w.nextNumber m) :=
    (hscores w.counter w.objective).trans (by simp; rfl)
  have hret : score? m₁.finish (.player w.ret) w.objective = some (w.nextNumber m) :=
    (hscores w.ret w.objective).trans (by simp; rfl)
  have hnumber : w.lastNumber m₁.finish = w.lastNumber m + 1 := by
    rw [← toInt_nextNumber hnext, lastNumber, hcounter]
    rfl
  refine ⟨m₁.finish, hh.run_of_effects hd (by decide) (heffects _), hh.finish (heffects (callFunction 0)).beside,
    hk.create hw hnext hfirst hentities' hlast hnumber, hnumber,
    m.entities.map w.cleared, w.newborn m (w.nextNumber m) pos, hentities', ?_, ?_, ?_, ?_, hret, hcounter, ?_⟩
  · exact forall₂_map fun e _ ↦ retagged_cleared w e
  · intro x hx heq
    have hle := hk.ids x hx
    rw [heq] at hle
    exact absurd hle (Nat.not_succ_le_self _)
  · exact shows_newborn w m _ pos (by simp)
  · simp [newborn, hw.objectives.symm]
  · intro x hx
    rw [show m₁.finish.entities = m₁.entities from rfl, hentities', List.mem_append, List.mem_map, List.mem_singleton] at hx
    constructor
    · intro hshows
      rcases hx with ⟨y, hy, rfl⟩ | rfl
      · rw [(shows_cleared hw (hk.tags y hy)).2] at hshows
        cases hshows
      · rfl
    · rintro rfl
      exact shows_newborn w m _ pos (by simp)

/-- Objects stay in order in every operation, as long as there are numbers for new ones. -/
theorem Kept.run (hk : w.Kept m) (op : ObjectOperation) (hw : w.Valid) (hh : w.Hosts paths m) (hfetch : IsName (paths .fetch))
    (hfirst : 0 ≤ w.lastNumber m) (hroom : w.lastNumber m + op.creations < 2 ^ 31) :
    ∃ m', m.run (paths op) = (.ok (), m') ∧ w.Hosts paths m' ∧ w.Kept m' ∧ w.lastNumber m' = w.lastNumber m + op.creations ∧
      w.Done m m' op := by
  cases op with
  | create => exact hk.run_create hw hh hroom hfirst
  | fetch => simpa [ObjectOperation.creations] using hk.run_fetch hw hh
  | retain => simpa [ObjectOperation.creations, Done] using hk.run_recount hw hh hfetch .add rfl
  | release => simpa [ObjectOperation.creations, Done] using hk.run_recount hw hh hfetch .remove rfl
  | collect => simpa [ObjectOperation.creations] using hk.run_collect hw hh

/-- Something else happened to a machine, which left entities and the counter of objects alone. -/
structure Aside (w : ObjectNames) (m m' : Machine) : Prop where
  setup : m'.toSetup = m.toSetup
  maxCommands : m'.maxCommands = m.maxCommands
  objectives : m.objectives ⊆ m'.objectives
  idle : m'.running = false
  entities : m'.entities = m.entities
  lastEntity : m'.lastEntity = m.lastEntity
  counter : score? m' (.player w.counter) w.objective = score? m (.player w.counter) w.objective

theorem Aside.hosts (h : w.Aside m m') (hh : w.Hosts paths m) : w.Hosts paths m' := by
  have husable {o : String} (hu : Usable o m) : Usable o m' := by
    refine hu.imp (fun hstrict ↦ ?_) (fun hmem ↦ h.objectives hmem)
    rw [show m'.strict = m.strict from congrArg Setup.strict h.setup]
    exact hstrict
  exact hh.of_setup h.setup h.maxCommands h.idle
    ⟨husable hh.ready.idObjective, husable hh.ready.refCount, husable hh.ready.objective⟩

theorem Aside.kept (h : w.Aside m m') (hk : w.Kept m) : w.Kept m' :=
  hk.changed (f := id) (fun e he ↦ ⟨rfl, hk.tags e he, id, rfl, id⟩) (by rw [h.entities, List.map_id]) h.lastEntity h.counter

theorem Kept.of_entities (h : m.entities = []) : w.Kept m := by
  constructor <;> simp [h, Distinct]

/-- Machines after operations were run one after the other, with other things in between, and the number of objects
that were made. -/
inductive Reaches (w : ObjectNames) (paths : ObjectOperation → String) (m₀ : Machine) : Nat → Machine → Prop
  | start : Reaches w paths m₀ 0 m₀
  | aside {k : Nat} {m m' : Machine} (h : Reaches w paths m₀ k m) (hm : w.Aside m m') : Reaches w paths m₀ k m'
  | run {k : Nat} {m : Machine} (h : Reaches w paths m₀ k m) (op : ObjectOperation) :
      Reaches w paths m₀ (k + op.creations) (m.run (paths op)).2

theorem Reaches.kept {m₀ : Machine} {k : Nat} (h : w.Reaches paths m₀ k m) (hw : w.Valid) (hfetch : IsName (paths .fetch))
    (hk : w.Kept m₀) (hh : w.Hosts paths m₀) (hfirst : 0 ≤ w.lastNumber m₀) (hroom : w.lastNumber m₀ + k < 2 ^ 31) :
    w.Kept m ∧ w.Hosts paths m ∧ w.lastNumber m = w.lastNumber m₀ + k := by
  induction h with
  | start => exact ⟨hk, hh, by simp⟩
  | aside _ hm ih =>
    obtain ⟨hkept, hhosts, hnumber⟩ := ih hroom
    exact ⟨hm.kept hkept, hm.hosts hhosts, by rw [lastNumber, hm.counter]; exact hnumber⟩
  | @run k m _ op ih =>
    push_cast at hroom ⊢
    obtain ⟨hkept, hhosts, hnumber⟩ := ih (by omega)
    obtain ⟨m', hrun, hhosts', hkept', hnumber', -⟩ := hkept.run op hw hhosts hfetch (by omega) (by omega)
    rw [hrun]
    exact ⟨hkept', hhosts', hnumber'.trans (by omega)⟩

end ObjectNames

end CommandPack
