import Mathlib
import CommandPack.Message
import CommandPack.Proofs.Encoding
import CommandPack.Proofs.Rendering
import CommandPack.Proofs.Stepping
import CommandPack.Proofs.Testing

/-!
Messages show what their parts say. A message is built from parts, becomes a command as text, is split into
words again and flattened to plain text; what is shown in the end depends on the parts and on the machine only.
-/

namespace CommandPack

open Text Stateful

variable {cs : List Component} {fields : Dict Datum} {s : String} {c : Content} {t t' : SymbolTable}
  {shown : Dict Json}

namespace SymbolTable

variable {text : String} {t t' t'' : SymbolTable}

def Extends (t' t : SymbolTable) : Prop := ∀ i text, t.find? i = some text → t'.find? i = some text

theorem Extends.refl (t : SymbolTable) : Extends t t := fun _ _ h ↦ h

theorem Extends.trans (h : Extends t'' t') (h' : Extends t' t) : Extends t'' t := fun i text ht ↦ h i text (h' i text ht)

theorem Extends.of_found {i : Int} (h : Extends t' t) (hn : t.find? i = none)
    (hfind : ∀ j, t''.find? j = if i = j then some text else t'.find? j) : Extends t'' t := by
  intro j other hj
  have hne : i ≠ j := by
    rintro rfl
    rw [hn] at hj
    cases hj
  rw [hfind, if_neg hne]
  exact h j other hj

theorem find_extends {s : Symbol} (hn : t.find? s.id = none) (hargs : ∀ t, Extends (resolveAll s.args t).2 t) :
    Extends (find s t).2 t ∧ ∀ text, (find s t).1 = .ok text → (find s t).2.find? s.id = some text := by
  have hfound {t₁ t₂ : SymbolTable} {text : String} (heq : find s t = (.ok text, t₂)) (h : Extends t₁ t)
      (hfind : ∀ j, t₂.find? j = if s.id = j then some text else t₁.find? j) :
      Extends (find s t).2 t ∧ ∀ text, (find s t).1 = .ok text → (find s t).2.find? s.id = some text := by
    rw [heq]
    refine ⟨h.of_found hn hfind, ?_⟩
    rintro _ ⟨⟩
    simp [hfind]
  rcases find_cases s t with ⟨p, t₁, hp, rfl | ⟨-, rfl⟩⟩ | ⟨texts, t₁, text, -, hr, -, heq⟩ | ⟨p, -, -, heq⟩ |
    ⟨-, -, heq⟩
  · rw [hp]
    exact ⟨.refl _, nofun⟩
  · rw [hp]
    exact ⟨hargs t, nofun⟩
  · have hresolved := hargs t
    rw [hr] at hresolved
    exact hfound heq hresolved fun j ↦ find?_note t₁ s.id j text
  · exact hfound heq (.refl t) fun j ↦ find?_note t s.id j p.joined
  · exact hfound heq (.refl t) fun j ↦ find?_hand t s j

theorem extends_resolve_and_resolveAll :
    (∀ n t, Extends (resolve n t).2 t) ∧ ∀ ns t, Extends (resolveAll ns t).2 t := by
  have h := related_of_find (R := fun t t' ↦ Extends t' t) (P := fun _ ↦ True) Extends.refl
    (fun _ _ _ h h' ↦ h'.trans h) (fun _ _ _ _ ↦ trivial)
    fun s t _ hf _ ih ↦ (find_extends (t := t.entered s.id) hf ih).1
  exact ⟨fun n ↦ h.1 n trivial, fun ns ↦ h.2 ns fun _ _ ↦ trivial⟩

theorem find?_of_resolve_sym {s : Symbol} (h : resolve (.sym s) t = (.ok text, t')) : t'.find? s.id = some text := by
  cases hf : t.find? s.id with
  | some out =>
    rw [resolve_of_find? hf] at h
    cases h
    exact hf
  | none =>
    by_cases ha : s.id ∈ t.active
    · obtain ⟨p, hp⟩ := resolve_of_active hf ha
      rw [hp] at h
      cases h
    · rw [resolve_of_inactive hf ha, whileActive_apply] at h
      have hfound := (find_extends (t := t.entered s.id) hf (extends_resolve_and_resolveAll.2 s.args)).2
      have htable : (find s (t.entered s.id)).2.left s.id = t' := congrArg Prod.snd h
      rw [← htable]
      exact hfound text (congrArg Prod.fst h)

theorem resolve_of_rendered {n : Name} (h : Render.resolve n t = (.ok text, t')) : resolve n t = (.ok text, t') := by
  change ((resolve n t).1.mapError Failure.problem, (resolve n t).2) = _ at h
  rcases hr : resolve n t with ⟨p | out, t₁⟩ <;> rw [hr] at h <;> cases h
  rfl

theorem knows_of_resolve {n : Name} (h : resolve n t = (.ok text, t')) :
    Extends t' t ∧ t'.Knows n ∧ n.textIn t' = text := by
  have hextends := extends_resolve_and_resolveAll.1 n t
  rw [h] at hextends
  refine ⟨hextends, ?_⟩
  cases n with
  | lit text =>
    cases h
    exact ⟨trivial, rfl⟩
  | sym s =>
    have hfind := find?_of_resolve_sym h
    exact ⟨⟨text, hfind⟩, by rw [Name.textIn, hfind]; rfl⟩

theorem Extends.textIn {n : Name} (h : Extends t' t) (hn : t.Knows n) : n.textIn t' = n.textIn t := by
  cases n with
  | lit text => rfl
  | sym s =>
    obtain ⟨text, htext⟩ := hn
    rw [Name.textIn, Name.textIn, htext, h _ _ htext]

end SymbolTable

open SymbolTable

/-- The fields of a component once names have texts. -/
def Content.fieldsIn (texts : Name → String) (fields : Dict Datum) : Content → Dict Datum
  | nothing => fields
  | text s => fields.insert "text" (.string s)
  | score v => fields.insert "score" (.dict [("name", .string (texts v.player)), ("objective", .string (texts v.objective))])
  | data container target path => (fields.insert "nbt" (.string path)).insert container.name (.string (texts target))

/-- Adding a content resolves its names; whatever becomes text later, the fields stay the same. -/
theorem Content.addTo_eq_ok {fields' : Dict Datum} (h : c.addTo fields t = (.ok fields', t')) :
    Extends t' t ∧ ∀ t'', Extends t'' t' → fields' = c.fieldsIn (Name.textIn t'') fields := by
  cases c with
  | nothing =>
    cases h
    exact ⟨.refl t, fun _ _ ↦ rfl⟩
  | text s =>
    cases h
    exact ⟨.refl t, fun _ _ ↦ rfl⟩
  | score v =>
    simp only [addTo, bind_eq_ok] at h
    obtain ⟨player, t₁, hplayer, objective, t₂, hobjective, h⟩ := h
    cases h
    obtain ⟨hextends, hknows, rfl⟩ := knows_of_resolve (resolve_of_rendered hplayer)
    obtain ⟨hextends', hknows', rfl⟩ := knows_of_resolve (resolve_of_rendered hobjective)
    refine ⟨hextends'.trans hextends, fun t'' h'' ↦ ?_⟩
    rw [fieldsIn, (h''.trans hextends').textIn hknows, h''.textIn hknows']
  | data container target path =>
    simp only [addTo, bind_eq_ok] at h
    obtain ⟨id, t₁, hid, h⟩ := h
    cases h
    obtain ⟨hextends, hknows, rfl⟩ := knows_of_resolve (resolve_of_rendered hid)
    refine ⟨hextends, fun t'' h'' ↦ ?_⟩
    rw [fieldsIn, h''.textIn hknows]

theorem Component.resolveAll_eq_ok {data : List Datum} (h : resolveAll cs t = (.ok data, t')) :
    Extends t' t ∧ data = cs.map fun c ↦ .dict (c.content.fieldsIn (Name.textIn t') c.style) := by
  induction cs generalizing data t with
  | nil =>
    cases h
    exact ⟨.refl _, rfl⟩
  | cons c cs ih =>
    simp only [resolveAll, bind_eq_ok] at h
    obtain ⟨fields, t₁, hfields, rest, t₂, hrest, h⟩ := h
    cases h
    obtain ⟨hextends, hadd⟩ := Content.addTo_eq_ok hfields
    obtain ⟨hextends', rfl⟩ := ih hrest
    exact ⟨hextends'.trans hextends, by rw [List.map_cons, hadd t' hextends']⟩

/-- The line of a message: its target and its components, with the texts that all names have in the end. -/
theorem Instruction.render_tellraw_eq_ok {target : Name} {line : String}
    (h : (tellraw target cs).render t = (.ok line, t')) :
    ∃ j, Datum.toJson (.list (.string "" :: cs.map fun c ↦ .dict (c.content.fieldsIn (Name.textIn t') c.style))) = .ok j ∧
      line = "tellraw " ++ target.textIn t' ++ " " ++ j.render .bare := by
  simp only [render, bind_eq_ok] at h
  obtain ⟨who, t₁, hwho, data, t₂, hdata, h⟩ := h
  obtain ⟨-, hknows, rfl⟩ := knows_of_resolve (resolve_of_rendered hwho)
  obtain ⟨hextends, rfl⟩ := Component.resolveAll_eq_ok hdata
  cases hj : Datum.toJson (.list (.string "" :: cs.map fun c ↦ .dict (c.content.fieldsIn (Name.textIn t₂) c.style))) with
  | error e =>
    rw [hj] at h
    cases h
  | ok j =>
    rw [hj] at h
    cases h
    exact ⟨j, hj, by rw [hextends.textIn hknows]⟩

namespace Message

def contentKeys : List String :=
  ["text", "translate", "score", "nbt", "storage", "entity", "block", "selector", "extra"]

/-- A part that shows a text, a constant or what a machine has, or changes the style. -/
inductive Showable where
  | text (s : String)
  | style (changes : Dict (Option Datum)) (hkeys : ∀ k ∈ changes.keys, k ∉ contentKeys)
  | int (n : Int)
  | string (s : String)
  | score (v : Score)
  | storage (id : Name) (path : String) (type : DataType)

def shownTag : Option Tag → String
  | some (.string s) => s
  | some t => t.render
  | none => ""

def shownScore : Option Int32 → String
  | some n => toString n.toInt
  | none => ""

namespace Showable

def part : Showable → Part
  | text s => .text s
  | style changes _ => .style changes
  | int n => .value (.int n)
  | string s => .value (.string s)
  | score v => .value (.score v)
  | storage id path type => .value (.slot (.inStorage id path type))

/-- What a part shows on a machine; a score only if it is the score of one holder. -/
def said (texts : Name → String) (m : Machine) (actor : Machine.Actor) : Showable → String
  | text s | string s => s
  | style .. => ""
  | int n => toString n
  | score v =>
    match m.holders actor (texts v.player) with
    | .ok [h] => shownScore (m.score? h (texts v.objective))
    | _ => ""
  | storage id path _ => shownTag (m.storageAt? (texts id) path)

/-- The components of a message in a style. -/
def components (style : Dict Datum) : List Showable → List Component
  | [] => []
  | .text s :: ps => ⟨style, .text s⟩ :: components style ps
  | .style changes _ :: ps => components (restyle style changes) ps
  | .int n :: ps => ⟨style, .text (toString n)⟩ :: components style ps
  | .string s :: ps => ⟨style, .text s⟩ :: components style ps
  | .score v :: ps => ⟨style, .score v⟩ :: components style ps
  | .storage id path _ :: ps => ⟨style, .data .storage id path⟩ :: components style ps

theorem content_int (n : Int) : content (.int n) = .ok (.text (toString n)) := by
  change Except.ok (Content.text ((unquote? (toString n)).getD (toString n))) = _
  rw [unquote?_toString, Option.getD_none]

theorem content_string (s : String) : content (.string s) = .ok (.text s) := by
  change Except.ok (Content.text ((unquote? (quote s)).getD (quote s))) = _
  rw [unquote?_quote, Option.getD_some]

theorem assemble_value {scratch : Option Slot} {style : Dict Datum} {staged : Nat} {v : Operand} {parts : List Part}
    {before : Scratch} (hv : v.isDerived = false) (hc : content v = .ok c)
    (h : assemble scratch style staged parts before = (.ok ([], cs), before)) :
    assemble scratch style staged (.value v :: parts) before = (.ok ([], ⟨style, c⟩ :: cs), before) := by
  rw [assemble.eq_def]
  simp only [hv, Bool.false_eq_true, if_false, hc, bind_apply]
  change andThen _ (Except.ok c, before) = _
  rw [andThen_ok, bind_apply, h]
  rfl

theorem assemble_showables (scratch : Option Slot) (style : Dict Datum) (staged : Nat) (ps : List Showable) (before : Scratch) :
    assemble scratch style staged (ps.map part) before = (.ok ([], components style ps), before) := by
  induction ps generalizing style with
  | nil => rfl
  | cons p ps ih =>
    cases p with
    | text s => simp [assemble, part, components, ih]
    | style changes hkeys => simp [assemble, part, components, ih]
    | int n => exact assemble_value rfl (content_int n) (ih style)
    | string s => exact assemble_value rfl (content_string s) (ih style)
    | score v => exact assemble_value rfl rfl (ih style)
    | storage id path type => exact assemble_value rfl rfl (ih style)

theorem print_showables (scratch : Option Slot) (target : Name) (ps : List Showable) (c : Scratch) :
    print scratch target (ps.map part) c = (.ok [.tellraw target (components [] ps)], c) := by
  simp [print, assemble_showables]

end Showable

/-- A style says nothing about what is shown. -/
structure IsStyle (style : Dict Datum) : Prop where
  nodup : style.keys.Nodup
  find?_eq : ∀ k ∈ contentKeys, style.find? k = none

theorem isStyle_nil : IsStyle [] := ⟨List.nodup_nil, fun _ _ ↦ rfl⟩

theorem IsStyle.restyle {style : Dict Datum} (h : IsStyle style) {changes : Dict (Option Datum)}
    (hkeys : ∀ k ∈ changes.keys, k ∉ contentKeys) : IsStyle (restyle style changes) := by
  induction changes generalizing style with
  | nil => exact h
  | cons e changes ih =>
    obtain ⟨k, v⟩ := e
    rw [Dict.keys, List.map_cons, List.forall_mem_cons] at hkeys
    have hne {k' : String} (hk' : k' ∈ contentKeys) : k ≠ k' := by
      rintro rfl
      exact hkeys.1 hk'
    cases v with
    | some v =>
      refine ih ⟨Dict.nodup_keys_insert k v h.nodup, fun k' hk' ↦ ?_⟩ hkeys.2
      rw [Dict.find?_insert, if_neg (hne hk')]
      exact h.find?_eq k' hk'
    | none =>
      refine ih ⟨Dict.nodup_keys_erase k h.nodup, fun k' hk' ↦ ?_⟩ hkeys.2
      rw [Dict.find?_erase, if_neg (hne hk')]
      exact h.find?_eq k' hk'

end Message

def Mirrors (shown : Dict Json) (fields : Dict Datum) : Prop :=
  ∀ k, (fields.find? k = none → shown.find? k = none) ∧
    ∀ x, fields.find? k = some x → ∃ v, x.toJson = .ok v ∧ shown.find? k = some v.normal

theorem find?_toJsonFields {fs : List (String × Json)} (h : Datum.toJsonFields fields = .ok fs) :
    Dict.keys fs = fields.keys ∧ ∀ k, (fields.find? k = none → Dict.find? k fs = none) ∧
      ∀ x, fields.find? k = some x → ∃ v, x.toJson = .ok v ∧ Dict.find? k fs = some v := by
  induction fields generalizing fs with
  | nil =>
    cases h
    exact ⟨rfl, fun _ ↦ ⟨fun _ ↦ rfl, by rintro _ ⟨⟩⟩⟩
  | cons e fields ih =>
    obtain ⟨k', y⟩ := e
    obtain ⟨v, hv, h⟩ := except_bind_eq_ok.1 h
    obtain ⟨fs, hfs, ⟨⟩⟩ := except_bind_eq_ok.1 h
    obtain ⟨hkeys, hfind⟩ := ih hfs
    refine ⟨congrArg (k' :: ·) hkeys, fun k ↦ ?_⟩
    simp only [Dict.find?]
    by_cases hk : k' = k
    · simp only [hk, if_true]
      refine ⟨by rintro ⟨⟩, ?_⟩
      rintro _ ⟨⟩
      exact ⟨v, hv, rfl⟩
    · simpa only [hk, if_false] using hfind k

theorem mirrors_of_toJson {j : Json} (hnodup : fields.keys.Nodup) (h : (Datum.dict fields).toJson = .ok j) :
    ∃ shown : Dict Json, j.normal = .object shown ∧ Mirrors shown fields := by
  obtain ⟨fs, hfs, ⟨⟩⟩ := except_bind_eq_ok.1 h
  obtain ⟨hkeys, hfind⟩ := find?_toJsonFields hfs
  refine ⟨_, by rw [Json.normal], fun k ↦ ?_⟩
  have hdistinct : (Dict.keys fs).Nodup := by rwa [hkeys]
  have hshown := Json.find?_normalFields hdistinct k []
  refine ⟨fun hnone ↦ ?_, fun x hx ↦ ?_⟩
  · rw [hshown, (hfind k).1 hnone]
    rfl
  · obtain ⟨v, hv, hk⟩ := (hfind k).2 x hx
    refine ⟨v, hv, ?_⟩
    rw [hshown, hk]
    rfl

theorem Mirrors.string (h : Mirrors shown fields) {k : String} (hk : fields.find? k = some (.string s)) :
    shown.find? k = some (.string s) := by
  obtain ⟨v, hv, hfind⟩ := (h k).2 _ hk
  cases hv
  exact hfind

namespace Machine

variable {path who : String} {d score : Dict Json} {steps : List Tag.Step} {items : List Json} {cancelled : Bool}
  {m m₁ m₂ : Machine} {site : Site} {actor : Actor}

/-- Machines that show the same: a storage without tags is like none. -/
structure ShowsAlike (m m' : Machine) : Prop where
  chat : m'.chat = m.chat
  scores : m'.scores = m.scores
  entities : m'.entities = m.entities
  storage : ∀ id, (m'.storage.find? id).getD [] = (m.storage.find? id).getD []

theorem ShowsAlike.refl (m : Machine) : ShowsAlike m m := ⟨rfl, rfl, rfl, fun _ ↦ rfl⟩

theorem ShowsAlike.trans (h : ShowsAlike m m₁) (h' : ShowsAlike m₁ m₂) : ShowsAlike m m₂ where
  chat := h'.chat.trans h.chat
  scores := h'.scores.trans h.scores
  entities := h'.entities.trans h.entities
  storage id := (h'.storage id).trans (h.storage id)

instance : IsPreorder Machine ShowsAlike where
  refl := ShowsAlike.refl
  trans _ _ _ := ShowsAlike.trans

theorem allowsCounters_showsAlike : AllowsCounters ShowsAlike := fun _ _ _ ↦ ⟨rfl, rfl, rfl, fun _ ↦ rfl⟩

theorem readPath_ne_nil (h : Tag.readPath path = .ok steps) : steps ≠ [] := by
  obtain ⟨read, -, h⟩ := except_bind_eq_ok.1 h
  rintro rfl
  cases read <;> cases h

theorem storageAt?_eq (h : Tag.readPath path = .ok steps) (id : String) :
    m.storageAt? id path = Tag.get? steps (.compound ((m.storage.find? id).getD [])) := by
  have hpath : path.isEmpty = false := by
    rw [Bool.eq_false_iff]
    intro hempty
    rw [String.isEmpty_iff.1 hempty] at h
    cases h
  rw [storageAt?]
  cases hroot : Dict.find? id m.storage with
  | some root => simp [hpath, h]
  | none =>
    cases steps with
    | nil => exact absurd rfl (readPath_ne_nil h)
    | cons step steps => cases step <;> rfl

theorem flattenField_eq {k : String} {v : Json} (h : d.find? k = some v) :
    flattenField k site actor d = flatten site actor v := by
  induction d with
  | nil => cases h
  | cons e d ih =>
    obtain ⟨k', w⟩ := e
    rw [Dict.find?] at h
    rw [flattenField]
    split at h
    · next hk =>
      cases h
      rw [if_pos hk]
    · next hk => rw [if_neg hk, ih h]

theorem flattenExtra_eq (h : d.find? "extra" = none) : flattenExtra site actor d = pure "" := by
  induction d with
  | nil => rfl
  | cons e d ih =>
    obtain ⟨k, v⟩ := e
    rw [Dict.find?] at h
    split at h
    · cases h
    · next hk =>
      rw [flattenExtra.eq_def]
      simp only [hk, if_false, ih h]

theorem flatten_text (htext : d.find? "text" = some (.string s)) (hextra : d.find? "extra" = none) :
    flatten site actor (.object d) = pure s := by
  rw [flatten, htext]
  simp only [flattenField_eq htext, flattenExtra_eq hextra, flatten, pure_bind, String.append_empty]

theorem flatten_content (htext : d.find? "text" = none) (hextra : d.find? "extra" = none) :
    flatten site actor (.object d) = flattenContent site actor d := by
  rw [flatten, htext]
  simp only [flattenExtra_eq hextra, pure_bind, String.append_empty, bind_pure]

theorem flattenContent_score (htranslate : d.find? "translate" = none)
    (hscore : d.find? "score" = some (.object score)) : flattenContent site actor d = flattenScore site actor score := by
  rw [flattenContent, givenText?, htranslate, hscore]
  rfl

theorem flattenContent_data (htranslate : d.find? "translate" = none) (hscore : d.find? "score" = none)
    (hpath : d.find? "nbt" = some (.string path)) : flattenContent site actor d = flattenData site actor path d := by
  rw [flattenContent, givenText?, htranslate, hscore, givenText?, hpath]
  rfl

theorem ofAction_eq_ok {α : Type} {a : Action α} {x : α} (h : Flatten.ofAction a m = (.ok x, m₁)) : a m = (.ok x, m₁) := by
  rw [Flatten.ofAction] at h
  rcases ha : a m with ⟨stop | y, m'⟩
  · rw [ha] at h
    cases h
  · rw [ha] at h
    cases h
    rfl

open Message

section Contents

variable {out : String} (texts : Name → String) (m site actor)

/-- In any style a content shows a text, on machines that show the same. -/
def Shows (c : Content) (s : String) : Prop :=
  ∀ {style : Dict Datum} {j : Json} {m₁ m₂ : Machine} {out : String}, IsStyle style →
    (Datum.dict (c.fieldsIn texts style)).toJson = .ok j → ShowsAlike m m₁ →
    flatten site actor j.normal m₁ = (.ok out, m₂) → out = s ∧ ShowsAlike m m₂

theorem shows_text (s : String) : Shows m site actor texts (.text s) s := by
  intro style j m₁ m₂ out hstyle hj hm h
  obtain ⟨shown, hshown, hmirrors⟩ := mirrors_of_toJson (Dict.nodup_keys_insert _ _ hstyle.nodup) hj
  have htext : shown.find? "text" = some (.string s) := hmirrors.string (by simp)
  have hextra : shown.find? "extra" = none :=
    (hmirrors "extra").1 (by simp [hstyle.find?_eq "extra" (by decide)])
  rw [hshown, flatten_text htext hextra] at h
  cases h
  exact ⟨rfl, hm⟩

theorem flattenScore_eq_ok (holder objective : String) (hname : score.find? "name" = some (.string holder))
    (hobjective : score.find? "objective" = some (.string objective))
    (h : flattenScore site actor score m₁ = (.ok out, m₂)) :
    m₂ = m₁ ∧ out = match m₁.holders actor holder with
      | .ok [h] => shownScore (m₁.score? h objective)
      | _ => "" := by
  rw [flattenScore, givenText?, hname, givenText?, hobjective] at h
  obtain ⟨r, m', haction, h⟩ := bind_eq_ok.1 h
  obtain ⟨rfl, hs, hholders, rfl⟩ := singleScore_eq_ok.1 (ofAction_eq_ok haction)
  change m'.holders actor holder = _ at hholders
  rw [hholders]
  rcases hs with _ | ⟨holder, _ | ⟨holder', hs⟩⟩
  · cases h
    exact ⟨rfl, rfl⟩
  · have hpure : (match m'.score? holder objective with
        | some v => (pure (toString v.toInt) : Flatten String)
        | none => pure "") = pure (shownScore (m'.score? holder objective)) := by
      cases m'.score? holder objective <;> rfl
    have hout := (congrFun hpure m').symm.trans h
    cases hout
    exact ⟨rfl, rfl⟩
  · cases h
    exact ⟨rfl, rfl⟩

theorem score?_congr {m m' : Machine} (h : ShowsAlike m m') (holder : Holder) (objective : String) :
    m'.score? holder objective = m.score? holder objective := by
  cases holder with
  | player name => rw [score?, score?, h.scores]
  | entity id => simp only [score?, entity?, h.entities]

theorem shows_score (v : Score) : Shows m site actor texts (.score v) ((Showable.score v).said texts m actor) := by
  intro style j m₁ m₂ out hstyle hj hm h
  obtain ⟨shown, hshown, hmirrors⟩ := mirrors_of_toJson (Dict.nodup_keys_insert _ _ hstyle.nodup) hj
  have hnone {k : String} (hk : k ∈ contentKeys) (hne : k ≠ "score") : shown.find? k = none :=
    (hmirrors k).1 (by simp [Ne.symm hne, hstyle.find?_eq k hk])
  obtain ⟨w, hw, hscore⟩ := (hmirrors "score").2 _ (by rw [Dict.find?_insert, if_pos rfl])
  cases hw
  rw [hshown, flatten_content (hnone (by decide) (by decide)) (hnone (by decide) (by decide)),
    flattenContent_score (hnone (by decide) (by decide)) hscore] at h
  obtain ⟨rfl, rfl⟩ := flattenScore_eq_ok site actor (texts v.player) (texts v.objective)
    (by simp [Json.normalFields, Json.normal]) (by simp [Json.normalFields, Json.normal]) h
  refine ⟨?_, hm⟩
  rw [Showable.said, holders_congr actor hm.entities]
  simp only [score?_congr hm]

theorem showsAlike_named (id : String) :
    ShowsAlike m (if Dict.has id m.storage then m else { m with storage := Dict.insert id [] m.storage }) := by
  split
  · exact .refl m
  · next hid =>
    refine ⟨rfl, rfl, rfl, fun id' ↦ ?_⟩
    have hnone : Dict.find? id m.storage = none := by simpa [Dict.has] using hid
    rw [Dict.find?_insert]
    split
    · next heq =>
      subst heq
      rw [hnone]
      rfl
    · rfl

theorem flattenData_eq_ok {id : String} (hsource : shown.find? "storage" = some (.string id))
    (h : flattenData site actor path shown m₁ = (.ok out, m₂)) :
    ShowsAlike m₁ m₂ ∧ ∃ steps, Tag.readPath path = .ok steps ∧
      out = shownTag (Tag.get? steps (.compound ((m₁.storage.find? id).getD []))) := by
  have hwords : dataSource? shown = some ["storage", id] := by simp [dataSource?, given?, hsource, wordOf]
  have hpure (found : Option Tag) : (match found with
      | some (.string s) => (pure s : Flatten String)
      | some t => pure t.render
      | none => pure "") = pure (shownTag found) := by
    rcases found with _ | t
    · rfl
    · cases t <;> rfl
  rw [flattenData, hwords] at h
  obtain ⟨target, m', haction, h⟩ := bind_eq_ok.1 h
  have htarget := ofAction_eq_ok haction
  simp only [dataTarget, if_true, bind_apply, modify_apply, andThen_ok, pure_apply, outcome_eq_iff, Except.ok.injEq] at htarget
  obtain ⟨rfl, hm'⟩ := htarget
  have hm : ShowsAlike m₁ m' := hm' ▸ showsAlike_named m₁ id
  cases hsteps : Tag.readPath path with
  | error e =>
    rw [hsteps] at h
    cases h
  | ok steps =>
    simp only [hsteps, bind_apply, get_apply, andThen_ok, Place.load, hm.storage] at h
    have hout := (congrFun (hpure _) m').symm.trans h
    cases hout
    exact ⟨hm, steps, rfl, rfl⟩

theorem shows_storage (id : Name) (path : String) (type : DataType) :
    Shows m site actor texts (.data .storage id path) ((Showable.storage id path type).said texts m actor) := by
  intro style j m₁ m₂ out hstyle hj hm h
  obtain ⟨shown, hshown, hmirrors⟩ := mirrors_of_toJson
    (Dict.nodup_keys_insert _ _ (Dict.nodup_keys_insert _ _ hstyle.nodup)) hj
  have hnone {k : String} (hk : k ∈ contentKeys) (hpath : k ≠ "nbt") (hsource : k ≠ "storage") : shown.find? k = none :=
    (hmirrors k).1 (by simp [Container.name, Ne.symm hpath, Ne.symm hsource, hstyle.find?_eq k hk])
  have hpath : shown.find? "nbt" = some (.string path) := hmirrors.string (by simp [Container.name])
  have hsource : shown.find? "storage" = some (.string (texts id)) := hmirrors.string (by simp [Container.name])
  rw [hshown, flatten_content (hnone (by decide) (by decide) (by decide)) (hnone (by decide) (by decide) (by decide)),
    flattenContent_data (hnone (by decide) (by decide) (by decide)) (hnone (by decide) (by decide) (by decide)) hpath] at h
  obtain ⟨hm', steps, hsteps, rfl⟩ := flattenData_eq_ok site actor hsource h
  refine ⟨?_, hm.trans hm'⟩
  rw [Showable.said, storageAt?_eq hsteps, hm.storage]

/-- Components show a text one after the other. -/
def ShowsAll (cs : List Component) (s : String) : Prop :=
  ∀ {js : List Json} {m₁ m₂ : Machine} {out : String},
    Datum.toJsonList (cs.map fun c ↦ .dict (c.content.fieldsIn texts c.style)) = .ok js → ShowsAlike m m₁ →
    flattenItems site actor (Json.normalItems js) m₁ = (.ok out, m₂) → out = s ∧ ShowsAlike m m₂

theorem showsAll_cons {style : Dict Datum} {s' : String} (hstyle : IsStyle style) (hc : Shows m site actor texts c s)
    (hcs : ShowsAll m site actor texts cs s') : ShowsAll m site actor texts (⟨style, c⟩ :: cs) (s ++ s') := by
  intro js m₁ m₂ out hjs hm h
  obtain ⟨j, hj, hmore⟩ := except_bind_eq_ok.1 hjs
  obtain ⟨tail, htail, ⟨⟩⟩ := except_bind_eq_ok.1 hmore
  rw [Json.normalItems, flattenItems] at h
  obtain ⟨first, m', hfirst, h⟩ := bind_eq_ok.1 h
  obtain ⟨rest, m'', hrest, h⟩ := bind_eq_ok.1 h
  cases h
  obtain ⟨rfl, hm'⟩ := hc hstyle hj hm hfirst
  obtain ⟨rfl, hm''⟩ := hcs htail hm' hrest
  exact ⟨rfl, hm''⟩

theorem showsAll_components {style : Dict Datum} (hstyle : IsStyle style) (ps : List Showable) :
    ShowsAll m site actor texts (Showable.components style ps) (String.join (ps.map (Showable.said texts m actor))) := by
  induction ps generalizing style with
  | nil =>
    intro js m₁ m₂ out hjs hm h
    cases hjs
    cases h
    exact ⟨rfl, hm⟩
  | cons p ps ih =>
    rw [List.map_cons, String.join_cons]
    cases p with
    | text s => exact showsAll_cons m site actor texts hstyle (shows_text m site actor texts s) (ih hstyle)
    | style changes hkeys =>
      rw [Showable.said, String.empty_append]
      exact ih (hstyle.restyle hkeys)
    | int n => exact showsAll_cons m site actor texts hstyle (shows_text m site actor texts _) (ih hstyle)
    | string s => exact showsAll_cons m site actor texts hstyle (shows_text m site actor texts s) (ih hstyle)
    | score v => exact showsAll_cons m site actor texts hstyle (shows_score m site actor texts v) (ih hstyle)
    | storage id path type =>
      exact showsAll_cons m site actor texts hstyle (shows_storage m site actor texts id path type) (ih hstyle)

theorem flattenText_eq_ok {j : Json} (hcs : ShowsAll m site actor texts cs s)
    (hj : Datum.toJson (.list (.string "" :: cs.map fun c ↦ .dict (c.content.fieldsIn texts c.style))) = .ok j)
    (hm : ShowsAlike m m₁) (h : flattenText site actor (j.render .bare) m₁ = (.ok out, m₂)) :
    out = s ∧ ShowsAlike m m₂ := by
  have hspelled := Json.isSpelled_toJson_and_toJsonList.1 _ _ hj
  obtain ⟨items, hitems, ⟨⟩⟩ := except_bind_eq_ok.1 hj
  obtain ⟨first, ⟨⟩, hitems⟩ := except_bind_eq_ok.1 hitems
  obtain ⟨js, hjs, ⟨⟩⟩ := except_bind_eq_ok.1 hitems
  rw [flattenText] at h
  cases hread : Json.read? (Json.render .bare (.array (.string "" :: js))) with
  | none =>
    rw [hread] at h
    cases h
  | some v =>
    rw [hread, Json.eq_normal_of_read? hspelled hread] at h
    dsimp only at h
    split at h
    · rw [Json.normal, flatten, Json.normalItems, flattenItems] at h
      obtain ⟨first, m', hfirst, h⟩ := bind_eq_ok.1 h
      obtain ⟨rest, m'', hrest, h⟩ := bind_eq_ok.1 h
      cases h
      cases hfirst
      rw [String.empty_append]
      exact hcs hjs hm hrest
    · cases h

end Contents

def messageLine (who : String) (j : Json) : String := "tellraw " ++ who ++ " " ++ j.render .bare

theorem commandsOf_messageLine (hwho : '\n' ∉ who.toList) (hitems : Json.itemsSpelled items = true) :
    commandsOf (messageLine who (.array items)) = [messageLine who (.array items)] := by
  have htext : (messageLine who (.array items)).toList =
      't' :: ("ellraw ".toList ++ who.toList ++ ' ' :: (Json.render .bare (.array items)).toList) := by
    simp [messageLine]
  have hinset := Json.isInset_render_and_renderItems.1 (.array items) hitems
  have hbreak : '\n' ∉ (messageLine who (.array items)).toList := by
    rw [htext]
    simp [hwho, hinset.unbroken]
  have hlast : (messageLine who (.array items)).toList.getLast? = some ']' := by
    have hclose : (messageLine who (.array items)).toList =
        ("tellraw ".toList ++ who.toList ++ " [".toList ++ (join "," (Json.renderItems .bare items)).toList) ++ [']'] := by
      simp [messageLine, Json.render]
    rw [hclose, List.getLast?_concat]
  exact commandsOf_eq_self hbreak (by rw [htext]; rfl) hlast (by decide) (by decide) (by decide)

theorem splitWords_messageLine (hwho : ∀ c ∈ who.toList, isWordChar c = true)
    (hitems : Json.itemsSpelled items = true) :
    splitWords (messageLine who (.array items)) =
      .ok (["tellraw"] ++ (if who = "" then [] else [who]) ++ [Json.render .bare (.array items)]) := by
  have hword : splitWords "tellraw" = .ok ["tellraw"] := rfl
  have htarget : splitWords who = .ok (if who = "" then [] else [who]) := by
    split
    · next hempty =>
      subst hempty
      rfl
    · next hne => exact splitWords_of_isWordChar hne hwho
  have hline : messageLine who (.array items) = "tellraw" ++ " " ++ who ++ " " ++ Json.render .bare (.array items) := by
    rw [messageLine]
    rfl
  rw [hline]
  exact splitWords_append (splitWords_append hword htarget) (Json.splitWords_array hitems)

theorem fetchWords_eq_ok {words : List String} (h : fetchWords site m = (.ok words, m₁)) :
    ShowsAlike m m₁ ∧ splitWords site.location.command = .ok words := by
  refine ⟨(keeps_fetchWords allowsCounters_showsAlike site).of_eq h, ?_⟩
  obtain ⟨-, m', -, h⟩ := bind_eq_ok.1 h
  obtain ⟨-, m'', -, h⟩ := bind_eq_ok.1 h
  cases hsplit : splitWords site.location.command with
  | error e =>
    rw [hsplit] at h
    cases h
  | ok words =>
    rw [hsplit] at h
    cases h
    rfl

theorem perform_tellraw (call : Call) (args : List String) :
    perform call site ("tellraw" :: args) actor = tellraw site actor args := by
  rw [perform, if_neg (by decide)]
  simp [simple]

theorem tellraw_eq_ok {raw : String} {r : Result} (h : tellraw site actor [who, raw] m = (.ok r, m₁)) :
    ∃ line m', flattenText site actor raw m = (.ok line, m') ∧ m₁.chat = m'.chat.push line := by
  have hraw : join " " [raw] = raw := by simp [join]
  rw [tellraw, bind_apply, get_apply, andThen_ok, hraw] at h
  rcases hflat : flattenText site actor raw m with ⟨e | line, m'⟩
  · rw [hflat] at h
    cases h
  · rw [hflat] at h
    cases h
    exact ⟨line, m', rfl, rfl⟩

/-- A run that succeeds starts on a machine that shows the same, and leaves the chat as its action did. -/
theorem asRun_eq_ok {α : Type} {a : Action α} {x : α} (h : m.asRun cancelled a = (.ok x, m₁)) :
    ∃ m' m'', ShowsAlike m m' ∧ m'.functions = m.functions ∧ a m' = (.ok x, m'') ∧ m₁.chat = m''.chat := by
  by_cases hrunning : m.running = true
  · simp [asRun, begin, hrunning] at h
  · rw [asRun_eq (by simpa using hrunning)] at h
    have hok : (a { m with running := true, cancelled, count := 0 }).1 = .ok x := congrArg Prod.fst h
    have hchat := congrArg (fun outcome ↦ outcome.2.chat) h
    exact ⟨{ m with running := true, cancelled, count := 0 }, _, ⟨rfl, rfl, rfl, fun _ ↦ rfl⟩, rfl, Prod.ext hok rfl,
      hchat.symm⟩

theorem exists_items_of_toJson {xs : List Datum} {j : Json} (h : (Datum.list xs).toJson = .ok j) :
    ∃ items, j = .array items ∧ Json.itemsSpelled items = true := by
  obtain ⟨items, hitems, ⟨⟩⟩ := except_bind_eq_ok.1 h
  exact ⟨items, rfl, Json.isSpelled_toJson_and_toJsonList.2.2 _ _ hitems⟩

section Lines

variable {texts : Name → String} {who : String} {ps : List Showable} {j : Json} {call : Call} {r : Result}
  (hj : Datum.toJson (.list (.string "" ::
    (Showable.components [] ps).map fun c ↦ .dict (c.content.fieldsIn texts c.style))) = .ok j)
  (hwho : ∀ c ∈ who.toList, isWordChar c = true)

include hj hwho

theorem chat_of_step (hm : ShowsAlike m m₁) (hline : site.location.command = messageLine who j)
    (h : step call site actor m₁ = (.ok r, m₂)) :
    m₂.chat = m.chat.push (String.join (ps.map (Showable.said texts m actor))) := by
  obtain ⟨items, rfl, hitems⟩ := exists_items_of_toJson hj
  rw [step_eq_fetchWords] at h
  obtain ⟨words, m', hwords, h⟩ := bind_eq_ok.1 h
  obtain ⟨hm', hsplit⟩ := fetchWords_eq_ok hwords
  rw [hline, splitWords_messageLine hwho hitems] at hsplit
  cases hsplit
  split at h
  · -- a message for nobody is no message
    rw [List.append_nil, List.singleton_append, perform_tellraw] at h
    cases h
  · rw [List.singleton_append, List.cons_append, perform_tellraw, List.singleton_append] at h
    obtain ⟨out, m'', hflat, hchat⟩ := tellraw_eq_ok h
    obtain ⟨rfl, hm''⟩ := flattenText_eq_ok m site actor texts (showsAll_components m site actor texts isStyle_nil ps) hj
      (hm.trans hm') hflat
    rw [hchat, hm''.chat]

theorem chat_of_exec (h : m.exec (messageLine who j) = (.ok r, m₁)) :
    m₁.chat = m.chat.push (String.join (ps.map (Showable.said texts m {}))) := by
  obtain ⟨m', m'', hm, -, hstep, hchat⟩ := asRun_eq_ok h
  rw [hchat]
  exact chat_of_step hj hwho hm rfl hstep

theorem chat_of_callFunction {caller : String} {depth : Nat} (hm : ShowsAlike m m₁)
    (hfunction : Dict.find? path m₁.functions = some [messageLine who j])
    (h : callFunction depth path caller site actor m₁ = (.ok r, m₂)) :
    m₂.chat = m.chat.push (String.join (ps.map (Showable.said texts m actor))) := by
  rw [callFunction.eq_def] at h
  simp only [bind_apply, get_apply, andThen_ok, hfunction] at h
  cases depth with
  | zero => cases h
  | succ depth =>
    obtain ⟨_, m₃, hcall, h⟩ := bind_eq_ok.1 h
    obtain ⟨_, m₄, hlines, h⟩ := bind_eq_ok.1 h
    obtain ⟨_, m₅, hreturn, h⟩ := bind_eq_ok.1 h
    cases h
    obtain ⟨r, m₆, hstep, hend⟩ := bind_eq_ok.1 hlines
    cases hend
    have hm₃ := (keeps_watchCall allowsCounters_showsAlike _ path caller).of_eq hcall
    have hm₅ := (keeps_watchReturn allowsCounters_showsAlike site path).of_eq hreturn
    rw [hm₅.chat]
    exact chat_of_step hj hwho (hm.trans hm₃) rfl hstep

theorem chat_of_run (hwho' : '\n' ∉ who.toList)
    (h : (m.define path [messageLine who j]).run path cancelled = (.ok (), m₁)) :
    m₁.chat = m.chat.push (String.join (ps.map (Showable.said texts m {}))) := by
  obtain ⟨m', m'', hm, hfunctions, heach, hchat⟩ := asRun_eq_ok h
  obtain ⟨r, m₂, hcall, hend⟩ := bind_eq_ok.1 heach
  cases hend
  have hdefine : ShowsAlike m (m.define path [messageLine who j]) := ⟨rfl, rfl, rfl, fun _ ↦ rfl⟩
  have hfunction : Dict.find? path m'.functions = some [messageLine who j] := by
    obtain ⟨items, rfl, hitems⟩ := exists_items_of_toJson hj
    rw [hfunctions, define, Dict.find?_insert, if_pos rfl, List.flatMap_singleton, commandsOf_messageLine hwho' hitems]
  rw [hchat]
  exact chat_of_callFunction hj hwho (hdefine.trans hm) hfunction hcall

end Lines

/-- A message becomes one command, whatever its parts are. Once the command is text, it is one line for a function,
and executing it, by itself or in a function, adds just what the parts say to the chat, with the texts that the
names have by then. -/
theorem message_shows_parts (scratch : Option Slot) (target : Name) (ps : List Showable) :
    ∃ instruction : Instruction,
      (∀ before, Message.print scratch target (ps.map Showable.part) before = (.ok [instruction], before)) ∧
      ∀ {t t' : SymbolTable} {line : String}, instruction.render t = (.ok line, t') →
        (∀ c ∈ (target.textIn t').toList, isWordChar c = true ∧ c ≠ '\n') →
        commandsOf line = [line] ∧
        (∀ {call : Call} {site : Site} {actor : Actor} {m m' : Machine} {r : Result}, site.location.command = line →
          step call site actor m = (.ok r, m') →
          m'.chat = m.chat.push (String.join (ps.map (Showable.said (Name.textIn t') m actor)))) ∧
        (∀ {m m' : Machine} {r : Result}, m.exec line = (.ok r, m') →
          m'.chat = m.chat.push (String.join (ps.map (Showable.said (Name.textIn t') m {})))) ∧
        ∀ {m m' : Machine} {path : String} {cancelled : Bool}, (m.define path [line]).run path cancelled = (.ok (), m') →
          m'.chat = m.chat.push (String.join (ps.map (Showable.said (Name.textIn t') m {}))) := by
  refine ⟨.tellraw target (Showable.components [] ps), Showable.print_showables scratch target ps, ?_⟩
  intro t t' line hrender htarget
  obtain ⟨j, hj, rfl⟩ := Instruction.render_tellraw_eq_ok hrender
  have hwho : ∀ c ∈ (target.textIn t').toList, isWordChar c = true := fun c hc ↦ (htarget c hc).1
  have hbreak : '\n' ∉ (target.textIn t').toList := fun hc ↦ (htarget _ hc).2 rfl
  refine ⟨?_, fun hline hstep ↦ chat_of_step hj hwho (.refl _) hline hstep, fun hexec ↦ chat_of_exec hj hwho hexec,
    fun hrun ↦ chat_of_run hj hwho hbreak hrun⟩
  obtain ⟨items, rfl, hitems⟩ := exists_items_of_toJson hj
  exact commandsOf_messageLine hbreak hitems

/-- Parts with signs that mean something in a command, in JSON and in a quoted text. -/
def quoting : List Showable :=
  [.text "\"]\n# ", .int (-5), .style [("b", some .null)] (by decide), .score ⟨.lit "p", .lit "o"⟩,
    .storage (.lit "s") "a" .string, .string "'\\\x7b"]

def scorer : Machine := { scores := [("o", [("p", 7)])], storage := [("s", [("a", .string "x y")])] }

theorem message_shows_parts_quoting : ∃ (instruction : Instruction) (line : String),
    Message.print none (.lit "@a") (quoting.map Showable.part) {} = (.ok [instruction], {}) ∧
    instruction.render {} = (.ok line, {}) ∧ (scorer.exec line).1.toBool = true ∧
    (scorer.exec line).2.chat = scorer.chat.push "\"]\n# -57x y'\\\x7b" := by
  obtain ⟨instruction, hprint, hshows⟩ := message_shows_parts none (.lit "@a") quoting
  obtain rfl : .tellraw (.lit "@a") (Showable.components [] quoting) = instruction := by
    simpa using (Showable.print_showables none (.lit "@a") quoting {}).symm.trans (hprint {})
  have hrender : (Instruction.tellraw (.lit "@a") (Showable.components [] quoting)).render {} =
      (.ok ((Instruction.tellraw (.lit "@a") (Showable.components [] quoting)).textIn {}), {}) := rfl
  have hend : (scorer.exec ((Instruction.tellraw (.lit "@a") (Showable.components [] quoting)).textIn {})).1.toBool = true := by
    decide +kernel
  refine ⟨_, _, hprint {}, hrender, hend, ?_⟩
  rcases hexec : scorer.exec ((Instruction.tellraw (.lit "@a") (Showable.components [] quoting)).textIn {}) with ⟨e | r, m⟩
  · rw [hexec] at hend
    cases hend
  · rw [(hshows hrender (by simp [Name.textIn, isWordChar])).2.2.1 hexec]
    rfl

end Machine

end CommandPack
