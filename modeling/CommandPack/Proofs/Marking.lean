import Mathlib
import CommandPack.Name
import CommandPack.Proofs.Lines

/-!
Entities that commands find by their tags. A command that goes through several entities changes each of
them by itself, so its effect is one change of all entities that it found.
-/

namespace CommandPack.Stateful

variable {ε σ α β : Type}

/-- A computation gives a result and leaves a state. -/
def Ends (x : ExceptT ε (StateM σ) α) (s s' : σ) : Prop := ∃ a, x s = (.ok a, s')

theorem ends_pure (a : α) (s : σ) : Ends (pure a : ExceptT ε (StateM σ) α) s s := ⟨a, rfl⟩

theorem ends_bind {x : ExceptT ε (StateM σ) α} {f : α → ExceptT ε (StateM σ) β} {s s₁ s₂ : σ} {a : α}
    (hx : x s = (.ok a, s₁)) (hf : Ends (f a) s₁ s₂) : Ends (x >>= f) s s₂ := by
  obtain ⟨b, hb⟩ := hf
  exact ⟨b, bind_eq_ok.2 ⟨a, s₁, hx, hb⟩⟩

theorem Ends.bind {x : ExceptT ε (StateM σ) α} {f : α → ExceptT ε (StateM σ) β} {s s₁ s₂ : σ} (hx : Ends x s s₁)
    (hf : ∀ a, Ends (f a) s₁ s₂) : Ends (x >>= f) s s₂ := by
  obtain ⟨a, ha⟩ := hx
  exact ends_bind ha (hf a)

theorem Ends.map {x : ExceptT ε (StateM σ) α} {s s' : σ} (hx : Ends x s s') (f : α → β) : Ends (f <$> x) s s' := by
  rw [map_eq_pure_bind]
  exact hx.bind fun a ↦ ends_pure (f a) s'

end CommandPack.Stateful

namespace CommandPack.Machine

open Stateful Text

variable {e e' : Entity} {f g : Entity → Entity} {ts : List String} {es : List Entity} {m m' : Machine} {site : Site}
  {actor : Actor} {t : String}

theorem tags_addTag (e : Entity) (t : String) : (e.addTag t).tags = e.tags ++ [t] := by
  simp only [Entity.addTag, Entity.tags, Dict.find?_insert, if_true, List.filterMap_append]
  split <;> rfl

theorem filterMap_eraseP_string (items : List Tag) (t : String) :
    (items.eraseP fun x ↦ x.string? == some t).filterMap Tag.string? = (items.filterMap Tag.string?).erase t := by
  induction items with
  | nil => rfl
  | cons x items ih =>
    cases hx : x.string? with
    | none => simp [hx, ih]
    | some s =>
      by_cases hs : s = t
      · simp [hx, hs]
      · simp [hx, hs, ih]

theorem tags_removeTag (e : Entity) (t : String) : (e.removeTag t).tags = e.tags.erase t := by
  unfold Entity.removeTag
  split
  · rename_i items hitems
    simp [Entity.tags, hitems, filterMap_eraseP_string]
  · rename_i hnone
    have htags : e.tags = [] := by
      unfold Entity.tags
      split
      · rename_i items hitems
        exact absurd hitems (hnone items)
      · rfl
    rw [htags]
    rfl

def Distinct (m : Machine) : Prop := (m.entities.map (·.id)).Nodup

theorem Distinct.entity? (h : m.Distinct) (he : e ∈ m.entities) : m.entity? e.id = some e := by
  unfold Distinct at h
  unfold Machine.entity?
  generalize m.entities = es at h he
  induction es with
  | nil => cases he
  | cons x es ih =>
    rw [List.map_cons, List.nodup_cons] at h
    rcases List.mem_cons.1 he with rfl | he
    · simp
    · have hne : x.id ≠ e.id := fun heq ↦ h.1 (List.mem_map.2 ⟨e, he, heq.symm⟩)
      rw [List.find?_cons_of_neg (by simpa using hne)]
      exact ih h.2 he

theorem mem_of_entity? {id : Nat} (h : m.entity? id = some e) : e ∈ m.entities ∧ e.id = id :=
  ⟨List.mem_of_find?_eq_some h, by simpa using List.find?_some h⟩

theorem Distinct.eq (h : m.Distinct) (he : e ∈ m.entities) (he' : e' ∈ m.entities) (hid : e.id = e'.id) : e = e' := by
  have hfind := h.entity? he
  rw [hid, h.entity? he'] at hfind
  exact (Option.some.inj hfind).symm

def changed (m : Machine) (f : Entity → Entity) : Machine := { m with entities := m.entities.map f }

def KeepsId (f : Entity → Entity) : Prop := ∀ e, (f e).id = e.id

theorem Distinct.changed (h : m.Distinct) (hf : KeepsId f) : (m.changed f).Distinct := by
  have hids : (m.entities.map f).map (·.id) = m.entities.map (·.id) := by
    rw [List.map_map]
    exact List.map_congr_left fun e _ ↦ hf e
  rw [Distinct, Machine.changed, hids]
  exact h

theorem entity?_changed (hf : KeepsId f) (id : Nat) : (m.changed f).entity? id = (m.entity? id).map f := by
  simp only [Machine.entity?, Machine.changed]
  rw [List.find?_map]
  congr 2
  funext e
  simp [hf e]

theorem changed_changed (f g : Entity → Entity) : (m.changed f).changed g = m.changed (g ∘ f) := by
  simp [changed]

theorem changed_congr (h : ∀ e ∈ m.entities, f e = g e) : m.changed f = m.changed g := by
  simp only [changed]
  congr 1
  exact List.map_congr_left h

theorem changed_eq_self (h : ∀ e ∈ m.entities, f e = e) : m.changed f = m := by
  rw [changed_congr (g := id) h]
  simp [changed]

def among (ids : List Nat) (f : Entity → Entity) (e : Entity) : Entity := if e.id ∈ ids then f e else e

theorem keepsId_among (hf : KeepsId f) (ids : List Nat) : KeepsId (among ids f) := by
  intro e
  rw [among]
  split
  · exact hf e
  · rfl

theorem updateEntity_eq (m : Machine) (id : Nat) (f : Entity → Entity) :
    m.updateEntity id f = m.changed (among [id] f) := by
  simp [updateEntity, changed, among]

theorem among_comp (hf : KeepsId f) {id : Nat} {ids : List Nat} (h : id ∉ ids) :
    among ids f ∘ among [id] f = among (id :: ids) f := by
  funext e
  simp only [Function.comp, among, List.mem_cons]
  by_cases hid : e.id = id
  · simp [hid, hf e, h]
  · simp [hid]

def wherever (p : Entity → Bool) (f : Entity → Entity) (e : Entity) : Entity := if p e then f e else e

theorem keepsId_wherever (hf : KeepsId f) (p : Entity → Bool) : KeepsId (wherever p f) := by
  intro e
  rw [wherever]
  split
  · exact hf e
  · rfl

theorem Distinct.changed_among (hm : m.Distinct) (p : Entity → Bool) (f : Entity → Entity) :
    m.changed (among ((m.entities.filter p).map (·.id)) f) = m.changed (wherever p f) := by
  refine changed_congr fun e he ↦ ?_
  have hiff : e.id ∈ (m.entities.filter p).map (·.id) ↔ p e = true := by
    constructor
    · intro h
      obtain ⟨e', he', hid⟩ := List.mem_map.1 h
      obtain ⟨hmem, hp⟩ := List.mem_filter.1 he'
      rwa [hm.eq he hmem hid.symm]
    · intro hp
      exact List.mem_map.2 ⟨e, List.mem_filter.2 ⟨he, hp⟩, rfl⟩
  simp only [among, wherever, hiff]

theorem Distinct.nodup_filter (hm : m.Distinct) (p : Entity → Bool) : ((m.entities.filter p).map (·.id)).Nodup :=
  hm.sublist (List.filter_sublist.map _)

theorem Distinct.changed_one (hm : m.Distinct) (he : m.entity? e.id = some e) (h : f e = g e) :
    m.changed (among [e.id] f) = m.changed (among [e.id] g) := by
  refine changed_congr fun x hx ↦ ?_
  by_cases hid : x.id = e.id
  · obtain rfl := hm.eq hx (mem_of_entity? he).1 hid
    simp [among, h]
  · simp [among, hid]

/-- A loop that changes the entity of each round changes all of them. Where a round starts, its own entity is as
it was before the loop. -/
theorem forIn_each {β : Type} (hg : KeepsId g) (hes : (es.map (·.id)).Nodup)
    {f : Entity → β → Action (ForInStep β)} (hm : m.Distinct)
    (hf : ∀ e ∈ es, ∀ b m', m' = { m with entities := m'.entities } → m'.Distinct →
      m'.entity? e.id = m.entity? e.id →
      ∃ b', f e b m' = (.ok (.yield b'), m'.changed (among [e.id] g))) (b : β) :
    Ends (forIn es b f) m (m.changed (among (es.map (·.id)) g)) := by
  induction es generalizing m b with
  | nil => exact ⟨b, by simp [changed_eq_self, among]⟩
  | cons e es ih =>
    obtain ⟨he, hes⟩ := List.nodup_cons.1 hes
    obtain ⟨b₁, hb₁⟩ := hf e List.mem_cons_self b m rfl hm rfl
    have hother {k : Nat} (hk : k ∈ es.map (·.id)) : (m.changed (among [e.id] g)).entity? k = m.entity? k := by
      rw [entity?_changed (keepsId_among hg _)]
      cases hx : m.entity? k with
      | none => rfl
      | some x =>
        have hne : x.id ≠ e.id := by
          rw [(mem_of_entity? hx).2]
          rintro rfl
          exact he hk
        simp [among, hne]
    obtain ⟨b₂, hb₂⟩ := ih hes (hm.changed (keepsId_among hg _)) (fun x hx b m' hm' hdistinct hentity ↦
      hf x (List.mem_cons_of_mem _ hx) b m' hm' hdistinct
        (hentity.trans (hother (List.mem_map_of_mem hx)))) b₁
    refine ⟨b₂, ?_⟩
    rw [List.forIn_cons, bind_apply, hb₁, andThen_ok]
    simp only []
    rw [hb₂, changed_changed, among_comp hg he]
    rfl

theorem Distinct.forIn_filter {β : Type} (hg : KeepsId g) (hm : m.Distinct)
    (p : Entity → Bool) {f : Entity → β → Action (ForInStep β)}
    (hf : ∀ e, p e = true → ∀ b m', m' = { m with entities := m'.entities } → m'.Distinct →
      m'.entity? e.id = some e →
      ∃ b', f e b m' = (.ok (.yield b'), m'.changed (among [e.id] g))) (b : β) :
    Ends (forIn (m.entities.filter p) b f) m (m.changed (wherever p g)) := by
  rw [← hm.changed_among p g]
  refine forIn_each hg (hm.nodup_filter p) hm (fun e he b m' hm' hdistinct hentity ↦ ?_) b
  obtain ⟨hmem, hp⟩ := List.mem_filter.1 he
  exact hf e hp b m' hm' hdistinct (hentity.trans (hm.entity? hmem))

def selectorOf (t : String) : String := "@e[tag=" ++ t ++ "]"

def tagged (m : Machine) (t : String) : List Entity := m.living.filter (·.tags.contains t)

theorem isRestrictedChar_of_mem (ht : isRestrictedText t = true) {c : Char} (hc : c ∈ t.toList) :
    isRestrictedChar c = true := by
  simp only [isRestrictedText, Bool.and_eq_true, List.all_eq_true] at ht
  exact ht.2 c hc

theorem toNat_of_isRestrictedChar {c : Char} (h : isRestrictedChar c = true) : 43 ≤ c.toNat ∧ c.toNat ≤ 122 := by
  simp only [isRestrictedChar, Bool.or_eq_true, Bool.and_eq_true, decide_eq_true_eq, beq_iff_eq, Char.le_def,
    UInt32.le_iff_toNat_le] at h
  change 43 ≤ c.val.toNat ∧ c.val.toNat ≤ 122
  rcases h with (((((h | h) | h) | rfl) | rfl) | rfl) | rfl
  · exact ⟨le_trans (by decide) h.1, h.2⟩
  · exact ⟨le_trans (by decide) h.1, le_trans h.2 (by decide)⟩
  · exact ⟨le_trans (by decide) h.1, le_trans h.2 (by decide)⟩
  all_goals decide

theorem isNameChar_of_isRestrictedChar {c : Char} (h : isRestrictedChar c = true) : isNameChar c = true := by
  have hne {d : Char} (hd : isRestrictedChar d = false) : c ≠ d := by
    rintro rfl
    rw [hd] at h
    cases h
  have hrange := toNat_of_isRestrictedChar h
  have hblank : isBlank c = false := by
    simp only [isBlank, Bool.or_eq_false_iff, Bool.and_eq_false_iff, decide_eq_false_iff_not, beq_eq_false_iff_ne]
    omega
  simp only [isNameChar, isWordChar, hblank, Bool.and_eq_true, bne_iff_ne, Bool.not_false, and_true]
  and_intros <;> exact hne rfl

theorem isName_of_isRestrictedText (ht : isRestrictedText t = true) : IsName t := by
  refine ⟨?_, List.all_eq_true.2 fun c hc ↦ isNameChar_of_isRestrictedChar (isRestrictedChar_of_mem ht hc)⟩
  rintro rfl
  cases ht

theorem notMem_of_isRestrictedText (ht : isRestrictedText t = true) {c : Char} (hc : isRestrictedChar c = false) :
    c ∉ t.toList := by
  intro hmem
  rw [isRestrictedChar_of_mem ht hmem] at hc
  cases hc

theorem trim_of_isName (ht : IsName t) : trim t = t := by
  have hne : t.toList ≠ [] := fun h ↦ ht.1 (String.toList_eq_nil_iff.1 h)
  have hblank {c : Char} (hc : c ∈ t.toList) : isBlank c = false := by
    have h := ht.isNameChar c hc
    simp only [isNameChar, Bool.and_eq_true, Bool.not_eq_true'] at h
    exact h.1.1.2
  rw [trim, trimChars_of_ends (List.head?_eq_some_head hne) (List.getLast?_eq_some_getLast hne)
    (hblank (List.head_mem hne)) (hblank (List.getLast_mem hne)), String.ofList_toList]

theorem addArgument_tag (ht : isRestrictedText t = true) :
    Selector.addArgument { scope := .entities } ("tag=" ++ t) = .ok { scope := .entities, tags := [t] } := by
  have hcut : cut? '=' ("tag=" ++ t) = some ("tag", t) := by
    have htext : ("tag=" ++ t).toList = 't' :: 'a' :: 'g' :: '=' :: t.toList := by simp
    have hspan : List.span (· != '=') ('t' :: 'a' :: 'g' :: '=' :: t.toList) = (['t', 'a', 'g'], '=' :: t.toList) := rfl
    rw [cut?, htext, hspan]
    simp only [String.ofList_toList]
  have hpositive : dropLead? ['!'] t.toList = none := by
    rcases hl : t.toList with _ | ⟨c, cs⟩
    · rfl
    · have hne : '!' ≠ c := by
        rintro rfl
        exact notMem_of_isRestrictedText ht (c := '!') rfl (hl ▸ List.mem_cons_self)
      simp [dropLead?, hne]
  have hkey : trim "tag" = "tag" := by decide
  simp only [Selector.addArgument, hcut, hkey, trim_of_isName (isName_of_isRestrictedText ht), hpositive, if_true,
    List.nil_append]

theorem parse_entities {args : String} (hargs : args ≠ "") : Selector.parse ("@e[" ++ args ++ "]") =
    Selector.addArguments { scope := .entities } (split ',' args) := by
  have htext : ("@e[" ++ args ++ "]").toList = '@' :: 'e' :: '[' :: args.toList ++ [']'] := by simp
  have hne : args.toList.reverse.isEmpty = false := by simpa [String.toList_eq_nil_iff] using hargs
  unfold Selector.parse
  rw [htext]
  simp only [List.cons_append, Selector.scope?, List.reverse_append, List.reverse_cons, List.reverse_nil,
    List.nil_append, hne, Bool.false_eq_true, if_false, List.reverse_reverse, String.ofList_toList]

theorem split_tag (ht : isRestrictedText t = true) : split ',' ("tag=" ++ t) = ["tag=" ++ t] := by
  have hcomma : ',' ∉ ("tag=" ++ t).toList := by
    simp [notMem_of_isRestrictedText ht (c := ',') rfl]
  rw [split, splitChars_of_notMem hcomma, List.map_singleton, String.ofList_toList]

theorem selectorOf_eq (t : String) : selectorOf t = "@e[" ++ ("tag=" ++ t) ++ "]" := by
  simp [selectorOf, ← String.toList_inj]

theorem parse_selectorOf (ht : isRestrictedText t = true) :
    Selector.parse (selectorOf t) = .ok { scope := .entities, tags := [t] } := by
  rw [selectorOf_eq, parse_entities (by simp [← String.toList_inj]), split_tag ht]
  simp only [Selector.addArguments, addArgument_tag ht]
  rfl

theorem scanWords_wordChars {cs : List Char} (hcs : ∀ c ∈ cs, isWordChar c = true) (w : List Char) (d : Nat)
    (ds : List Char) : scanWords { word := some w, depth := d } (cs ++ ds) =
      scanWords { word := some (cs.reverse ++ w), depth := d } ds := by
  induction cs generalizing w with
  | nil => rfl
  | cons c cs ih =>
    obtain ⟨hc, hcs⟩ := List.forall_mem_cons.1 hcs
    have hblank : ¬ (c = ' ' ∨ c = '\t') := by
      rintro (rfl | rfl) <;> cases hc
    rw [List.cons_append, scanWords_unmarked rfl, if_neg fun h ↦ hblank h.1, WordState.step_of_isWordChar _ hc]
    simp only [WordState.push, Option.getD_some, ih hcs]
    simp

theorem scanWords_quotedChars {cs : List Char} (hcs : ∀ c ∈ cs, c ≠ '"' ∧ c ≠ '\\') (w : List Char) (d : Nat)
    (ds : List Char) : scanWords { word := some w, depth := d, mark := some '"' } (cs ++ ds) =
      scanWords { word := some (cs.reverse ++ w), depth := d, mark := some '"' } ds := by
  induction cs generalizing w with
  | nil => rfl
  | cons c cs ih =>
    obtain ⟨hc, hcs⟩ := List.forall_mem_cons.1 hcs
    rw [List.cons_append, scanWords_marked rfl hc.2, if_neg hc.1]
    simp only [WordState.push, Option.getD_some, ih hcs]
    simp

theorem splitWords_entities {args : String} (hargs : ∀ c ∈ args.toList, isWordChar c = true) :
    splitWords ("@e[" ++ args ++ "]") = .ok ["@e[" ++ args ++ "]"] := by
  have htext : ("@e[" ++ args ++ "]").toList = '@' :: 'e' :: '[' :: (args.toList ++ [']']) := by simp
  have hend (w : List Char) : scanWords { word := some w, depth := 1 } [']'] = .ok [String.ofList (']' :: w).reverse] :=
    rfl
  rw [splitWords, htext]
  change scanWords { word := some ['[', 'e', '@'], depth := 1 } _ = _
  rw [scanWords_wordChars hargs, hend, ← String.ofList_toList (s := "@e[" ++ args ++ "]"), htext]
  simp

theorem isWordChar_tag (ht : isRestrictedText t = true) : ∀ c ∈ ("tag=" ++ t).toList, isWordChar c = true := by
  intro c hc
  rcases List.mem_append.1 (String.toList_append ▸ hc) with hc | hc
  · exact List.all_eq_true.1 rfl c hc
  · exact (isName_of_isRestrictedText ht).isWordChar c hc

theorem splitWords_selectorOf (ht : isRestrictedText t = true) : splitWords (selectorOf t) = .ok [selectorOf t] := by
  rw [selectorOf_eq]
  exact splitWords_entities (isWordChar_tag ht)

theorem select_all (m : Machine) (actor : Actor) : select m actor "@e" = .ok m.living := by
  have hparse : Selector.parse "@e" = .ok { scope := .entities } := rfl
  simp [select, hparse, bind, Except.bind, pure, Except.pure, Selector.choose, Selector.matches?]

theorem select_tagged (ht : isRestrictedText t = true) (m : Machine) (actor : Actor) :
    select m actor (selectorOf t) = .ok (m.tagged t) := by
  have hmatches : ({ scope := .entities, tags := [t] } : Selector).matches? = fun e ↦ e.tags.contains t := by
    funext e
    simp [Selector.matches?]
  simp [select, parse_selectorOf ht, bind, Except.bind, pure, Except.pure, Selector.choose, hmatches, tagged]

theorem select_self (m : Machine) (actor : Actor) : select m actor "@s" = .ok (actor.self.bind m.entity?).toList := by
  have hparse : Selector.parse "@s" = .ok { scope := .self } := rfl
  cases hself : actor.self <;>
    simp [select, hparse, hself, bind, Except.bind, pure, Except.pure, Selector.choose, Selector.matches?]

theorem living_eq (m : Machine) : m.living = m.entities.filter (·.alive) := rfl

def Entity.shows (t : String) (e : Entity) : Bool := e.alive && e.tags.contains t

theorem tagged_eq (m : Machine) (t : String) : m.tagged t = m.entities.filter (Entity.shows t) := by
  rw [tagged, living_eq, List.filter_filter]
  congr 1
  funext e
  rw [Entity.shows, Bool.and_comm]

variable {call : Call}

def Entity.without (t : String) : Entity → Entity := wherever (·.tags.contains t) (·.removeTag t)

def Entity.marked (t : String) : Entity → Entity := wherever (!·.tags.contains t) (·.addTag t)

theorem keepsId_without (t : String) : KeepsId (Entity.without t) := by
  refine keepsId_wherever (fun e ↦ ?_) _
  simp only [Entity.removeTag]
  split <;> rfl

theorem keepsId_marked (t : String) : KeepsId (Entity.marked t) :=
  keepsId_wherever (f := (·.addTag t)) (fun _ ↦ rfl) _

theorem Distinct.modify_wherever (hm : m.Distinct) (he : m.entity? e.id = some e) (p : Entity → Bool)
    (f : Entity → Entity) {β : Type} (a b : β) :
    ∃ c, (if p e = true then do
        modify fun m ↦ m.updateEntity e.id f
        pure (.yield a)
      else pure (.yield b) : Action (ForInStep β)) m = (.ok (.yield c), m.changed (among [e.id] (wherever p f))) := by
  by_cases hp : p e = true
  · refine ⟨a, ?_⟩
    rw [hm.changed_one he (g := f) (by simp only [wherever, hp, if_true]), ← updateEntity_eq, if_pos hp]
    rfl
  · refine ⟨b, ?_⟩
    rw [hm.changed_one he (g := id) (by simp only [wherever, hp]; rfl), changed_eq_self (by simp [among]), if_neg hp]
    rfl

theorem Distinct.ends_untag (hm : m.Distinct) (p : Entity → Bool) (site : Site) (t : String) :
    Ends (changeTags site "remove" t (m.entities.filter p)) m (m.changed (wherever p (Entity.without t))) := by
  rw [changeTags]
  simp only [String.reduceEq, if_false, if_true]
  refine (hm.forIn_filter (keepsId_without t) p (fun e _ b m' _ hdistinct hfound ↦ ?_) 0).map id
  exact hdistinct.modify_wherever hfound (·.tags.contains t) (·.removeTag t) (b + 1) b

theorem Distinct.ends_mark (hm : m.Distinct) (p : Entity → Bool) (site : Site) (t : String) :
    Ends (changeTags site "add" t (m.entities.filter p)) m (m.changed (wherever p (Entity.marked t))) := by
  rw [changeTags]
  simp only [if_true]
  refine (hm.forIn_filter (keepsId_marked t) p (fun e _ b m' _ hdistinct hfound ↦ ?_) 0).map id
  exact hdistinct.modify_wherever hfound (!·.tags.contains t) (·.addTag t) (b + 1) b

theorem ends_tag {targets word : String} (hselect : select m actor targets = .ok es) (hword : word ≠ "list")
    (h : Ends (changeTags site word t es) m m') : Ends (perform call site ["tag", targets, word, t] actor) m m' := by
  rw [perform.eq_def]
  simp only [simple, String.reduceEq, if_false, if_true, tag, hword]
  exact ends_bind (selectOrFault_eq_ok.2 ⟨rfl, hselect⟩) (h.map _)

theorem Distinct.perform_untag (hm : m.Distinct) (t : String) :
    Ends (perform call site ["tag", "@e", "remove", t] actor) m (m.changed (wherever (·.alive) (Entity.without t))) :=
  ends_tag (select_all m actor) (by decide) (hm.ends_untag _ site t)

theorem Distinct.filter_id (hm : m.Distinct) (id : Nat) : m.entities.filter (·.id == id) = (m.entity? id).toList := by
  unfold Distinct at hm
  unfold Machine.entity?
  generalize m.entities = es at hm
  induction es with
  | nil => rfl
  | cons e es ih =>
    obtain ⟨he, hes⟩ := List.nodup_cons.1 hm
    by_cases hid : e.id = id
    · have hnone : es.filter (·.id == id) = [] := by
        rw [List.filter_eq_nil_iff]
        intro x hx hxid
        exact he (List.mem_map.2 ⟨x, hx, (beq_iff_eq.1 hxid).trans hid.symm⟩)
      simp [hid, hnone]
    · simp [hid, ih hes]

theorem wherever_id (id : Nat) (f : Entity → Entity) : wherever (·.id == id) f = among [id] f := by
  funext e
  simp [wherever, among]

theorem Distinct.perform_mark (hm : m.Distinct) (id : Nat) (pos : Position) (t : String) :
    Ends (perform call site ["tag", "@s", "add", t] ⟨some id, pos⟩) m (m.changed (among [id] (Entity.marked t))) := by
  refine ends_tag (select_self m ⟨some id, pos⟩) (by decide) ?_
  rw [Option.bind_some, ← hm.filter_id, ← wherever_id]
  exact hm.ends_mark _ site t

def Entity.removed (e : Entity) : Entity := { e with alive := false }

theorem Distinct.perform_kill (hm : m.Distinct) (id : Nat) (pos : Position) :
    Ends (perform call site ["kill", "@s"] ⟨some id, pos⟩) m (m.changed (among [id] Entity.removed)) := by
  rw [perform.eq_def]
  simp only [simple, String.reduceEq, if_false, if_true, kill, List.headD_cons]
  have hids : (m.changed (among ((m.entity? id).toList.map (·.id)) Entity.removed)) =
      m.changed (among [id] Entity.removed) := by
    rw [← hm.filter_id, ← wherever_id, hm.changed_among]
  rw [← hids]
  refine ends_bind (selectOrFault_eq_ok.2 ⟨rfl, select_self m ⟨some id, pos⟩⟩) (ends_bind (a := ⟨⟩) ?_ (ends_pure _ _))
  simp only [modify_apply, Machine.changed, List.contains_iff_mem]
  rfl

/-- Entities that differ at most in some tags. -/
structure Entity.Retagged (ts : List String) (e e' : Entity) : Prop where
  id : e'.id = e.id
  type : e'.type = e.type
  alive : e'.alive = e.alive
  scores : e'.scores = e.scores
  data (k : String) : k ≠ "Tags" → Dict.find? k e'.data = Dict.find? k e.data
  tags (t : String) : t ∉ ts → (t ∈ e'.tags ↔ t ∈ e.tags)

theorem Entity.Retagged.refl (ts : List String) (e : Entity) : e.Retagged ts e :=
  ⟨rfl, rfl, rfl, rfl, fun _ _ ↦ rfl, fun _ _ ↦ Iff.rfl⟩

theorem Entity.Retagged.trans {e'' : Entity} (h : e.Retagged ts e') (h' : e'.Retagged ts e'') : e.Retagged ts e'' :=
  ⟨h'.id.trans h.id, h'.type.trans h.type, h'.alive.trans h.alive, h'.scores.trans h.scores,
    fun k hk ↦ (h'.data k hk).trans (h.data k hk), fun t ht ↦ (h'.tags t ht).trans (h.tags t ht)⟩

theorem Entity.Retagged.wherever (hf : ∀ e : Entity, e.Retagged ts (f e)) (p : Entity → Bool) (e : Entity) :
    e.Retagged ts (wherever p f e) := by
  rw [Machine.wherever]
  split
  · exact hf e
  · exact .refl ts e

theorem tags_without (t : String) (e : Entity) : (e.without t).tags = e.tags.erase t := by
  rw [Entity.without, wherever]
  split
  · exact tags_removeTag e t
  · rename_i ht
    exact (List.erase_of_not_mem (by simpa using ht)).symm

theorem tags_marked (t : String) (e : Entity) : (e.marked t).tags = if t ∈ e.tags then e.tags else e.tags ++ [t] := by
  rw [Entity.marked, wherever]
  by_cases ht : t ∈ e.tags
  · simp [ht]
  · simp [ht, tags_addTag]

theorem retagged_without (ht : t ∈ ts) (e : Entity) : e.Retagged ts (e.without t) := by
  refine .wherever (fun e ↦ ?_) _ e
  have htags (s : String) (hs : s ∉ ts) : s ∈ (e.removeTag t).tags ↔ s ∈ e.tags := by
    rw [tags_removeTag]
    exact List.mem_erase_of_ne (by rintro rfl; exact hs ht)
  revert htags
  unfold Entity.removeTag
  split
  · exact fun htags ↦ ⟨rfl, rfl, rfl, rfl, fun k hk ↦ by simp [hk.symm], htags⟩
  · exact fun htags ↦ .refl ts e

theorem retagged_marked (ht : t ∈ ts) (e : Entity) : e.Retagged ts (e.marked t) := by
  refine .wherever (f := (·.addTag t)) (fun e ↦ ⟨rfl, rfl, rfl, rfl, fun k hk ↦ ?_, fun s hs ↦ ?_⟩) _ e
  · simp [Entity.addTag, hk.symm]
  · have hne : s ≠ t := by rintro rfl; exact hs ht
    simp [tags_addTag, hne]

theorem Entity.Retagged.shows (h : e.Retagged ts e') (ht : t ∉ ts) : e'.shows t = e.shows t := by
  rw [Entity.shows, Entity.shows, h.alive]
  congr 1
  exact Bool.eq_iff_iff.2 (by simpa using h.tags t ht)

theorem nodup_without (he : e.tags.Nodup) (t : String) : (e.without t).tags.Nodup := by
  rw [tags_without]
  exact he.erase t

theorem nodup_marked (he : e.tags.Nodup) (t : String) : (e.marked t).tags.Nodup := by
  rw [tags_marked]
  split
  · exact he
  · rename_i ht
    exact List.nodup_append.2 ⟨he, List.nodup_singleton t, by
      intro a ha b hb heq
      obtain rfl := List.mem_singleton.1 hb
      exact ht (heq ▸ ha)⟩

theorem nodup_wherever {p : Entity → Bool} (he : e.tags.Nodup) (hf : (f e).tags.Nodup) :
    (wherever p f e).tags.Nodup := by
  rw [wherever]
  split
  · exact hf
  · exact he

theorem shows_without (he : e.tags.Nodup) (t : String) : (wherever (·.alive) (Entity.without t) e).shows t = false := by
  rw [wherever]
  split
  · rw [Entity.shows, tags_without]
    simp [he.not_mem_erase]
  · rename_i hdead
    simp [Entity.shows, hdead]

theorem shows_marked (he : e.alive = true) (t : String) : (e.marked t).shows t = true := by
  have hretagged : e.Retagged [t] (e.marked t) := retagged_marked (by simp) e
  have halive : (e.marked t).alive = true := hretagged.alive.trans he
  rw [Entity.shows, halive, tags_marked]
  split
  · simpa
  · simp

end CommandPack.Machine
