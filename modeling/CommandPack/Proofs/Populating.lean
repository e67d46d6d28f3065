import Mathlib
import CommandPack.Proofs.Marking
import CommandPack.Proofs.Spelling

/-!
Scores of entities, new entities, and commands that run for each of some entities.
-/

namespace CommandPack.Machine

open Stateful Text

variable {o o' p : String} {e : Entity} {holds : Actor → Bool} {g : Entity → Entity} {m m₁ m' : Machine} {site : Site}
  {actor : Actor} {t : String} {call : Call}

def withObjective (o : String) (m : Machine) : Machine :=
  if m.objectives.contains o then m else { m with objectives := m.objectives ++ [o] }

theorem Usable.useObjective (ho : Usable o m) (site : Site) : useObjective site o m = (.ok (), m.withObjective o) := by
  unfold Machine.useObjective withObjective
  simp only [bind_apply, get_apply, andThen_ok]
  split
  · rfl
  · rename_i hnot
    rcases ho with ho | ho
    · simp only [ho, Bool.false_eq_true, if_false]
      rfl
    · exact absurd (List.contains_iff_mem.2 ho) hnot

@[simp] theorem entities_withObjective (o : String) (m : Machine) : (m.withObjective o).entities = m.entities := by
  unfold withObjective
  split <;> rfl

@[simp] theorem scores_withObjective (o : String) (m : Machine) : (m.withObjective o).scores = m.scores := by
  unfold withObjective
  split <;> rfl

theorem score?_withObjective (o : String) (m : Machine) (h : Holder) (o' : String) :
    score? (m.withObjective o) h o' = score? m h o' := by
  cases h <;> simp [score?, Machine.entity?]

theorem Distinct.withObjective (hm : m.Distinct) (o : String) : (m.withObjective o).Distinct := by
  rw [Distinct, entities_withObjective]
  exact hm

theorem Usable.withObjective (ho : Usable o m) (o' : String) : Usable o (m.withObjective o') := by
  unfold Machine.withObjective
  split
  · exact ho
  · exact ho.imp id (List.mem_append_left _)

def Entity.rescored (o : String) (f : Option Int32 → Int32) (e : Entity) : Entity :=
  { e with scores := Dict.insert o (f (Dict.find? o e.scores)) e.scores }

theorem keepsId_rescored (o : String) (f : Option Int32 → Int32) : KeepsId (Entity.rescored o f) := fun _ ↦ rfl

theorem score?_entity (o : String) {id : Nat} (he : m.entity? id = some e) :
    score? m (.entity id) o = Dict.find? o e.scores := by
  simp [score?, he]

theorem Distinct.setScore_entity (hm : m.Distinct) (he : m.entity? e.id = some e) (o : String)
    (f : Option Int32 → Int32) :
    setScore m (.entity e.id) o (f (Dict.find? o e.scores)) = m.changed (among [e.id] (Entity.rescored o f)) := by
  rw [setScore, updateEntity_eq]
  exact hm.changed_one he rfl

theorem Distinct.ends_changeScores (hm : m.Distinct) (p : Entity → Bool) (f : Int32 → Int32) (o : String) :
    Ends (changeScores f o ((m.entities.filter p).map fun e ↦ .entity e.id)) m
      (m.changed (wherever p (Entity.rescored o fun v ↦ f (v.getD 0)))) := by
  rw [changeScores]
  simp only [List.forIn_map]
  refine (hm.forIn_filter (keepsId_rescored o fun v ↦ f (v.getD 0)) p
    (fun e _ b m' _ hdistinct hfound ↦ ⟨f ((Dict.find? o e.scores).getD 0), ?_⟩) 0).map _
  rw [← hdistinct.setScore_entity hfound]
  simp only [bind_apply, get_apply, andThen_ok, score?_entity o hfound, set_apply, pure_apply]

theorem holders_tagged (ht : isRestrictedText t = true) (m : Machine) (actor : Actor) :
    holders m actor (selectorOf t) = .ok ((m.entities.filter (Entity.shows t)).map fun e ↦ .entity e.id) := by
  have hselector : isSelector (selectorOf t) = true := by
    have htext : (selectorOf t).toList = '@' :: 'e' :: '[' :: ("tag=" ++ t ++ "]").toList := by simp [selectorOf]
    simp only [isSelector, htext]
  rw [holders, if_pos hselector, select_tagged ht, tagged_eq]
  rfl

theorem Distinct.ends_assignScores (hm : m.Distinct) (ht : isRestrictedText t = true) {n : String} (ho : Usable o m)
    {k : Int} (hn : Decimal.readInt? 32 n = some k) (word : String) (f : Int32 → Int32 → Int32) :
    Ends (assignScores site actor word f [selectorOf t, o, n]) m
      ((m.withObjective o).changed (wherever (Entity.shows t) (Entity.rescored o fun v ↦ f (v.getD 0) (Int32.ofInt k)))) := by
  simp only [assignScores, hn]
  refine ends_bind (ho.useObjective site) (ends_bind ?_ ((hm.withObjective o).ends_changeScores _ _ o))
  simp only [holdersOrFault, bind_apply, get_apply, andThen_ok, holders_tagged ht, pure_apply]

theorem Distinct.perform_share (hm : m.Distinct) (ht : isRestrictedText t = true) (ho : Usable o m)
    (ho' : Usable o' m) (hp : isSelector p = false) :
    Ends (perform call site ["scoreboard", "players", "operation", selectorOf t, o, "=", p, o'] actor) m
      (((m.withObjective o).withObjective o').changed
        (wherever (Entity.shows t) (Entity.rescored o fun _ ↦ (score? m (.player p) o').getD 0))) := by
  rw [perform.eq_def]
  simp only [simple, scoreboard, String.reduceEq, if_false, if_true, scoreboardPlayers]
  refine ends_bind (ho.useObjective site) (ends_bind ((ho'.withObjective o).useObjective site) ?_)
  have htargets : holdersOrFault site actor (selectorOf t) ((m.withObjective o).withObjective o') =
      (.ok (((m.withObjective o).withObjective o').entities.filter (Entity.shows t) |>.map (.entity ·.id)),
        (m.withObjective o).withObjective o') := by
    simp only [holdersOrFault, bind_apply, get_apply, andThen_ok, holders_tagged ht, pure_apply]
  have hsource : holdersOrFault site actor p ((m.withObjective o).withObjective o') =
      (.ok [.player p], (m.withObjective o).withObjective o') := by
    simp only [holdersOrFault, bind_apply, get_apply, andThen_ok, holders_player hp, pure_apply]
  refine ends_bind htargets (ends_bind hsource ?_)
  · rw [operateScores]
    simp only [List.forIn_map]
    refine (((hm.withObjective o).withObjective o').forIn_filter
      (keepsId_rescored o fun _ ↦ (score? m (.player p) o').getD 0) _
      (fun e _ b m' hm' hdistinct hfound ↦ ⟨⟨(score? m (.player p) o').getD 0, b.2⟩, ?_⟩) _).map _
    have hscore : score? m' (.player p) o' = score? m (.player p) o' := by
      rw [hm']
      simp [score?]
    rw [← hdistinct.setScore_entity hfound]
    simp only [List.forIn_cons, List.forIn_nil, operatePair, String.reduceEq, if_false, ScoreOp.parse?, ScoreOp.apply,
      bind_apply, get_apply, andThen_ok, set_apply, pure_apply, hscore]

/-- The data of a new entity that has three tags. -/
def tagData (a b c : String) : String :=
  "\x7bTags:[\"" ++ a ++ "\",\"" ++ b ++ "\",\"" ++ c ++ "\"]\x7d"

theorem isPrintable_of_isRestrictedText (ht : isRestrictedText t = true) {c : Char} (hc : c ∈ t.toList) :
    isPrintable c = true := by
  obtain ⟨hlow, hhigh⟩ := toNat_of_isRestrictedChar (isRestrictedChar_of_mem ht hc)
  refine List.any_eq_true.2 ⟨(0x20, 0x7e), List.mem_cons_self, ?_⟩
  simp only [Bool.and_eq_true, decide_eq_true_eq]
  omega

theorem plain_of_isRestrictedText (ht : isRestrictedText t = true) : ∀ c ∈ t.toList, c ≠ '"' ∧ c ≠ '\\' := by
  intro c hc
  constructor
  · rintro rfl
    exact notMem_of_isRestrictedText ht (by decide) hc
  · rintro rfl
    exact notMem_of_isRestrictedText ht (by decide) hc

theorem quote_of_isRestrictedText (ht : isRestrictedText t = true) : quote t = "\"" ++ t ++ "\"" := by
  have hescape : t.toList.flatMap (escapeChar '"') = t.toList := by
    rw [List.flatMap_congr (g := fun c ↦ [c]), List.flatMap_singleton']
    intro c hc
    obtain ⟨hmark, hslash⟩ := plain_of_isRestrictedText ht c hc
    rw [escapeChar, if_neg (by simp [hmark, hslash]), if_pos (isPrintable_of_isRestrictedText ht hc)]
  rw [← String.toList_inj]
  simp [quote, encode, hescape]

variable {a b c : String} {ts : List String}

/-- The data of a new entity that has some tags. -/
def tagNote (ts : List String) : String := "\x7bTags:[" ++ join "," (ts.map fun t ↦ "\"" ++ t ++ "\"") ++ "]\x7d"

theorem tagData_eq : tagData a b c = tagNote [a, b, c] := by
  simp [tagData, tagNote, join, String.intercalate_cons_cons, ← String.toList_inj]

theorem read_tagNote (hts : ∀ t ∈ ts, isRestrictedText t = true) :
    Tag.read (tagNote ts) = .ok (.compound [("Tags", .list (ts.map .string))]) := by
  have hitems : Tag.renderItems (ts.map .string) = (ts.map fun t ↦ "\"" ++ t ++ "\"") ∧
      Tag.itemsLegible (ts.map .string) = true := by
    induction ts with
    | nil => exact ⟨rfl, rfl⟩
    | cons t ts ih =>
      rw [List.forall_mem_cons] at hts
      rw [List.map_cons, Tag.renderItems, Tag.render, quote_of_isRestrictedText hts.1, (ih hts.2).1, Tag.itemsLegible,
        (ih hts.2).2, Tag.isLegible, Bool.and_true, List.all_eq_true]
      exact ⟨rfl, fun c ↦ isPrintable_of_isRestrictedText hts.1⟩
  have hkey : Tag.isPlainKey "Tags" = true := by decide
  have hnote : tagNote ts = Tag.render (.compound [("Tags", .list (ts.map .string))]) := by
    simp [Tag.render, Tag.renderFields, hitems, tagNote, join, ← String.toList_inj]
  rw [hnote]
  exact (Tag.reads_and_readsItems.1 _ (by simp [Tag.isLegible, Tag.fieldsLegible, hitems, hkey, Dict.keys])).read_eq

theorem scanWords_tags (hts : ∀ t ∈ ts, isRestrictedText t = true) (w rest : List Char) :
    scanWords { word := some w, depth := 2 } ((join "," (ts.map fun t ↦ "\"" ++ t ++ "\"")).toList ++ rest) =
      scanWords { word := some ((join "," (ts.map fun t ↦ "\"" ++ t ++ "\"")).toList.reverse ++ w), depth := 2 } rest := by
  have hquoted {t : String} (ht : isRestrictedText t = true) (w rest : List Char) :
      scanWords { word := some w, depth := 2 } (("\"" ++ t ++ "\"").toList ++ rest) =
        scanWords { word := some (("\"" ++ t ++ "\"").toList.reverse ++ w), depth := 2 } rest := by
    have hopen (cs : List Char) : scanWords { word := some w, depth := 2 } ('"' :: cs) =
        scanWords { word := some ('"' :: w), depth := 2, mark := some '"' } cs := rfl
    have hclose (w : List Char) : scanWords { word := some w, depth := 2, mark := some '"' } ('"' :: rest) =
        scanWords { word := some ('"' :: w), depth := 2 } rest := by
      rw [scanWords_marked rfl (by decide), if_pos rfl]
      rfl
    simp [hopen, scanWords_quotedChars (plain_of_isRestrictedText ht), hclose]
  induction ts generalizing w with
  | nil => rfl
  | cons t ts ih =>
    rw [List.forall_mem_cons] at hts
    cases ts with
    | nil => simpa [join] using hquoted hts.1 w rest
    | cons t' ts =>
      have hnext (w cs : List Char) : scanWords { word := some w, depth := 2 } (',' :: cs) =
          scanWords { word := some (',' :: w), depth := 2 } cs := rfl
      have htext : (join "," ((t :: t' :: ts).map fun t ↦ "\"" ++ t ++ "\"")).toList =
          ("\"" ++ t ++ "\"").toList ++ ',' :: (join "," ((t' :: ts).map fun t ↦ "\"" ++ t ++ "\"")).toList := by
        simp [join, String.intercalate_cons_cons]
      rw [htext, List.append_assoc, hquoted hts.1, List.cons_append, hnext, ih hts.2]
      simp

theorem splitWords_tagNote (hts : ∀ t ∈ ts, isRestrictedText t = true) : splitWords (tagNote ts) = .ok [tagNote ts] := by
  have htext : (tagNote ts).toList = "\x7bTags:[".toList ++
      ((join "," (ts.map fun t ↦ "\"" ++ t ++ "\"")).toList ++ "]\x7d".toList) := by
    simp [tagNote]
  have hopen (cs : List Char) : scanWords {} ("\x7bTags:[".toList ++ cs) =
      scanWords { word := some "[:sgaT\x7b".toList, depth := 2 } cs := rfl
  have hlast (w : List Char) : scanWords { word := some w, depth := 2 } "]\x7d".toList =
      .ok [String.ofList ('\x7d' :: ']' :: w).reverse] := rfl
  rw [splitWords, htext, hopen, scanWords_tags hts, hlast, ← String.ofList_toList (s := tagNote ts), htext]
  simp

theorem readCoordinate_zero (base : Float) : readCoordinate base "0" = .ok 0 := by
  have hbits : Decimal.readBits? .double "0" = some 0 := by decide +kernel
  have hread : Decimal.readDouble? "0" = some 0 := by
    rw [Decimal.readDouble?, hbits]
    rfl
  simp [readCoordinate, hread]

def newcomer (m : Machine) (type a b c : String) (pos : Position) : Entity :=
  (((Entity.summoned (m.lastEntity + 1) type pos).addTag a).addTag b).addTag c

def joined (m : Machine) (e : Entity) : Machine :=
  { m with lastEntity := m.lastEntity + 1, entities := m.entities ++ [e] }

theorem Distinct.joined (hm : m.Distinct) (hids : ∀ e ∈ m.entities, e.id ≤ m.lastEntity)
    (he : e.id = m.lastEntity + 1) : (m.joined e).Distinct := by
  rw [Distinct, Machine.joined, List.map_append, List.nodup_append]
  refine ⟨hm, List.nodup_singleton _, fun id hid id' hid' heq ↦ ?_⟩
  obtain ⟨x, hx, rfl⟩ := List.mem_map.1 hid
  have hle := hids x hx
  simp only [List.map_cons, List.map_nil, List.mem_singleton] at hid'
  omega

theorem withData_tags (hab : a ≠ b) (hac : a ≠ c) (hbc : b ≠ c) (type : String) (pos : Position) (m : Machine) :
    (Entity.summoned (m.lastEntity + 1) type pos).withData [("Tags", .list [.string a, .string b, .string c])] =
      newcomer m type a b c pos := by
  have htags : (Entity.summoned (m.lastEntity + 1) type pos).tags = [] := rfl
  simp [Entity.withData, Tag.items?, Tag.string?, tags_addTag, htags, hab.symm, hac.symm, hbc.symm, newcomer]

theorem ends_summon (hts : ∀ t ∈ ts, isRestrictedText t = true) (type : String) :
    Ends (perform call site ["summon", type, "0", "0", "0", tagNote ts] actor) m
      (m.joined ((Entity.summoned (m.lastEntity + 1) type {}).withData [("Tags", .list (ts.map .string))])) := by
  refine ⟨⟨1, true⟩, ?_⟩
  have hpos : positionOrFault site actor "0" "0" "0" m = (.ok {}, m) :=
    positionOrFault_eq_ok.2 ⟨rfl, by simp [readPosition, readCoordinate_zero, bind, Except.bind, pure, Except.pure]⟩
  have htag (m' : Machine) : tagOrFault site [tagNote ts] m' = (.ok (.compound [("Tags", .list (ts.map .string))]), m') := by
    have hjoin : join " " [tagNote ts] = tagNote ts := rfl
    simp only [tagOrFault, hjoin, read_tagNote hts]
    rfl
  rw [perform.eq_def]
  simp only [simple, String.reduceEq, if_false, if_true, summon, bind_apply, hpos, andThen_ok, pure_apply, get_apply,
    modify_apply, List.isEmpty_cons, Bool.false_eq_true, htag]
  rfl

theorem perform_summon (ha : isRestrictedText a = true) (hb : isRestrictedText b = true) (hc : isRestrictedText c = true)
    (hab : a ≠ b) (hac : a ≠ c) (hbc : b ≠ c) (type : String) (actor : Actor) :
    ∃ pos, ∀ call site m, Ends (perform call site ["summon", type, "0", "0", "0", tagData a b c] actor) m
      (m.joined (newcomer m type a b c pos)) := by
  refine ⟨{}, fun call site m ↦ ?_⟩
  rw [tagData_eq, ← withData_tags hab hac hbc]
  exact ends_summon (by simp [ha, hb, hc]) type

theorem filterActors_eq (words : List String) {n : Nat} (sense : Bool)
    (hfirst : ∀ a, test site a words m = (.ok ⟨n, holds a⟩, m₁))
    (hagain : ∀ a, test site a words m₁ = (.ok ⟨n, holds a⟩, m₁)) (origin : Actor) (actors : List Actor) :
    filterActors site sense words origin actors m = (.ok (actors.filter (holds · == sense), n), m₁) := by
  have hloop (actors : List Actor) (next : List Actor) :
      (forIn actors (next, n) fun a (r : List Actor × Nat) ↦ do
        let t ← test site a words
        if (t.holds == sense) = true then pure (ForInStep.yield (r.1 ++ [a], t.used))
        else pure (ForInStep.yield (r.1, t.used)) : Action _) m₁ =
          (.ok (next ++ actors.filter (holds · == sense), n), m₁) := by
    induction actors generalizing next with
    | nil => simp
    | cons a actors ih =>
      simp only [List.forIn_cons, bind_apply, hagain, andThen_ok]
      by_cases ha : (holds a == sense) = true
      · simp only [ha, if_true, pure_apply, andThen_ok, ih, List.filter_cons_of_pos, List.append_assoc, List.singleton_append]
      · simp only [ha, if_false, pure_apply, andThen_ok, ih, List.filter_cons_of_neg, Bool.false_eq_true, not_false_eq_true]
  cases actors with
  | nil => simp [filterActors_nil, hfirst]
  | cons a actors =>
    simp only [filterActors, List.isEmpty_cons, Bool.false_eq_true, if_false, List.forIn_cons, bind_apply, hfirst, andThen_ok]
    by_cases ha : (holds a == sense) = true
    · simp only [ha, if_true, pure_apply, andThen_ok, List.filter_cons_of_pos, hloop, List.nil_append, List.singleton_append]
    · simp only [ha, if_false, pure_apply, andThen_ok, List.filter_cons_of_neg, hloop, List.nil_append, Bool.false_eq_true,
        not_false_eq_true]

theorem redirect_as {target : String} {es : List Entity} (hselect : select m actor target = .ok es) :
    redirect site "as" target [actor] m = (.ok (es.map fun e ↦ ⟨some e.id, actor.pos⟩), m) := by
  simp only [redirect, List.forIn_cons, List.forIn_nil, bind_apply, selectOrFault_eq_ok.2 ⟨rfl, hselect⟩, andThen_ok,
    pure_apply, if_true, List.nil_append]

/-- Running a command for each of some entities, if it changes the one that it runs for. -/
theorem Distinct.ends_runEach (hm : m.Distinct) (site : Site) (hg : KeepsId g) (p : Entity → Bool)
    {run : Actor → Action Result} (pos : Position)
    (hrun : ∀ (e : Entity) (m' : Machine), m'.Distinct → Ends (run ⟨some e.id, pos⟩) m' (m'.changed (among [e.id] g)))
    (origin : Actor) :
    Ends (Chain.runEach ⟨origin, (m.entities.filter p).map fun e ↦ ⟨some e.id, pos⟩, []⟩ site run) m
      (m.changed (wherever p g)) := by
  rw [Chain.runEach]
  simp only [List.forIn_map, applyStores, List.forIn_nil, pure_bind]
  refine (hm.forIn_filter hg p (fun e _ b m' _ hdistinct _ ↦ ?_) _).map _
  obtain ⟨r, hr⟩ := hrun e m' hdistinct
  simp only [bind_apply, hr, andThen_ok]
  split
  · exact ⟨_, rfl⟩
  · exact ⟨_, rfl⟩

/-- A command for each entity that has a tag and for which a condition holds, or does not. -/
theorem Distinct.perform_each (hm : m.Distinct) (ht : isRestrictedText t = true) {words cmd : List String}
    (hwords : IsTest words) (hcmd : cmd ≠ []) {n : Nat} (sense : Bool)
    (hfirst : ∀ a, test site a words m = (.ok ⟨n, holds a⟩, m₁))
    (hm₁ : m₁.entities = m.entities) {q : Entity → Bool}
    (hq : ∀ e ∈ m.entities, holds ⟨some e.id, actor.pos⟩ = q e) (hg : KeepsId g)
    (hrun : ∀ (e : Entity) (m' : Machine), m'.Distinct →
      Ends (perform call site cmd ⟨some e.id, actor.pos⟩) m' (m'.changed (among [e.id] g))) :
    Ends (perform call site ("execute" :: "as" :: selectorOf t :: senseWord sense :: (words ++ "run" :: cmd)) actor) m
      (m₁.changed (wherever (fun e ↦ e.shows t && q e == sense) g)) := by
  have hempty : cmd.isEmpty = false := by simpa using hcmd
  have hsense : senseWord sense ≠ "run" := by cases sense <;> decide
  have hn : n = words.length := hwords.used_eq (hfirst actor)
  have hdistinct : m₁.Distinct := by
    rw [Distinct, hm₁]
    exact hm
  have hactors : ((m.entities.filter (Entity.shows t)).map fun e ↦ (⟨some e.id, actor.pos⟩ : Actor)).filter
      (holds · == sense) = (m₁.entities.filter fun e ↦ e.shows t && holds ⟨some e.id, actor.pos⟩ == sense).map
        fun e ↦ ⟨some e.id, actor.pos⟩ := by
    rw [List.filter_map, List.filter_filter, hm₁]
    congr 2
    funext e
    simp [Bool.and_comm]
  have hfilter := filterActors_eq (words ++ "run" :: cmd) sense
    (fun a ↦ by rw [hwords.test_append]; exact hfirst a)
    (fun a ↦ by rw [hwords.test_append]; exact hwords.again (hfirst a)) actor
    ((m.entities.filter (Entity.shows t)).map fun e ↦ ⟨some e.id, actor.pos⟩)
  rw [hactors] at hfilter
  obtain ⟨r, hr⟩ := hdistinct.ends_runEach site hg
    (fun e ↦ e.shows t && holds ⟨some e.id, actor.pos⟩ == sense) actor.pos hrun actor
  have hresult : m₁.changed (wherever (fun e ↦ e.shows t && q e == sense) g) =
      m₁.changed (wherever (fun e ↦ e.shows t && holds ⟨some e.id, actor.pos⟩ == sense) g) := by
    refine changed_congr fun e he ↦ ?_
    rw [hm₁] at he
    rw [wherever, wherever, hq e he]
  refine ⟨r, ?_⟩
  rw [hresult, perform.eq_def]
  simp only [if_true]
  rw [chain.eq_def]
  simp only [String.reduceEq, if_false, Chain.clause, true_or, if_true, bind_apply,
    redirect_as ((select_tagged ht m actor).trans (by rw [tagged_eq])), andThen_ok, pure_apply]
  rw [chain.eq_def]
  simp only []
  rw [chain.eq_def]
  simp only [hsense, if_false, clause_sense, bind_apply, hfilter, andThen_ok, pure_apply, hn, chain_skip]
  rw [chain.eq_def]
  simp only [if_true, hempty, Bool.false_eq_true, if_false]
  exact hr

def ownScore (m : Machine) (o : String) (actor : Actor) : Option Int32 :=
  (actor.self.bind m.entity?).bind fun e ↦ Dict.find? o e.scores

theorem singleScore_self (o : String) : singleScore site actor "@s" o m = (.ok (m.ownScore o actor), m) := by
  refine singleScore_eq_ok.2 ⟨rfl, (actor.self.bind m.entity?).toList.map (.entity ·.id), ?_, ?_⟩
  · have hselector : isSelector "@s" = true := rfl
    rw [holders, if_pos hselector, select_self]
    rfl
  · rw [ownScore]
    cases he : actor.self.bind m.entity? with
    | none => rfl
    | some e =>
      obtain ⟨id, -, hid⟩ := Option.bind_eq_some_iff.1 he
      have hfound : m.entity? e.id = some e := by
        rwa [(mem_of_entity? hid).2]
      simp [score?_entity o hfound]

theorem ownScore_withObjective (o o' : String) (actor : Actor) (m : Machine) :
    (m.withObjective o').ownScore o actor = m.ownScore o actor := by
  have hentity : (m.withObjective o').entity? = m.entity? := by
    funext id
    simp only [Machine.entity?, entities_withObjective]
  rw [ownScore, ownScore, hentity]

theorem ownScore_of_entity? (o : String) {id : Nat} (he : m.entity? id = some e) (pos : Position) :
    m.ownScore o ⟨some id, pos⟩ = Dict.find? o e.scores := by
  simp [ownScore, he]

theorem singleScore_player (hp : isSelector p = false) (o : String) :
    singleScore site actor p o m = (.ok (score? m (.player p) o), m) :=
  singleScore_eq_ok.2 ⟨rfl, [.player p], holders_player hp, rfl⟩

def scoresAgree (a b : Option Int32) : Bool := a.isSome && a == b

theorem test_own_eq (ho : Usable o m) (ho' : Usable o' m) (hp : isSelector p = false) (actor : Actor) :
    test site actor ["score", "@s", o, "=", p, o'] m =
      (.ok ⟨6, scoresAgree (m.ownScore o actor) (score? m (.player p) o')⟩,
        (m.withObjective o).withObjective o') := by
  rw [test_compare site actor (by decide)]
  simp only [bind_apply, ho.useObjective site, andThen_ok, singleScore_self, (ho'.withObjective o).useObjective site,
    singleScore_player hp, ownScore_withObjective, score?_withObjective]
  cases m.ownScore o actor with
  | none => rfl
  | some a =>
    cases score? m (.player p) o' with
    | none => rfl
    | some b => rfl

theorem test_own_range {r : String} (ho : Usable o m) {range : Range} (hr : Range.parse? r = some range)
    (actor : Actor) :
    test site actor ["score", "@s", o, "matches", r] m =
      (.ok ⟨5, (m.ownScore o actor).any (range.holds ·.toInt)⟩, m.withObjective o) := by
  rw [test_range]
  simp only [bind_apply, ho.useObjective site, andThen_ok, singleScore_self, ownScore_withObjective, hr, pure_apply]

theorem perform_copy {q : String} (ho : Usable o m) (ho' : Usable o' m) (hq : isSelector q = false)
    (hp : isSelector p = false) :
    Ends (perform call site ["scoreboard", "players", "operation", q, o, "=", p, o'] actor) m
      (setScore ((m.withObjective o).withObjective o') (.player q) o ((score? m (.player p) o').getD 0)) := by
  rw [perform.eq_def]
  simp only [simple, scoreboard, String.reduceEq, if_false, if_true, scoreboardPlayers]
  refine ends_bind (ho.useObjective site) (ends_bind ((ho'.withObjective o).useObjective site) ?_)
  have hholders {s : String} (hs : isSelector s = false) (m : Machine) :
      holdersOrFault site actor s m = (.ok [.player s], m) := by
    simp only [holdersOrFault, bind_apply, get_apply, andThen_ok, holders_player hs, pure_apply]
  refine ends_bind (hholders hq _) (ends_bind (hholders hp _) ⟨⟨(score? m (.player p) o').getD 0, true⟩, ?_⟩)
  simp only [operateScores, List.forIn_cons, List.forIn_nil, operatePair, String.reduceEq, if_false, ScoreOp.parse?,
    ScoreOp.apply, bind_apply, get_apply, andThen_ok, set_apply, pure_apply, score?_withObjective]
  rfl

end CommandPack.Machine
