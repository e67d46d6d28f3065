import Mathlib
import CommandPack.Proofs.Confining
import CommandPack.Proofs.Dictionary

/-!
Paths into tags. What is put at a path is found there and all else stays, and a change that does not fit leaves behind
nothing but the empty containers made on the way.
-/

namespace CommandPack.Tag

/-- Steps that lead to different places wherever both lead somewhere. -/
def Step.Apart : Step → Step → Prop
  | .key k, .key k' => k ≠ k'
  | .index i, .index j => 0 ≤ i ∧ 0 ≤ j ∧ i ≠ j
  | _, _ => True

theorem position?_lt {n j : Nat} {i : Int} (h : position? n i = some j) : j < n := by
  simp only [position?, Option.ite_none_right_eq_some, Option.some.injEq] at h
  omega

theorem get?_container {path q : List Step} (hq : q ≠ []) : get? q (container path) = none := by
  obtain ⟨s, q, rfl⟩ := List.exists_cons_of_ne_nil hq
  rcases path with _ | ⟨_ | _, _⟩ <;> cases s <;> simp [container, get?, Dict.find?, position?]

/-- What is seen of a tag without a look into its fields and items. -/
def surface : Tag → Tag
  | .compound _ => .compound []
  | .list items => .list (.replicate items.length (.compound []))
  | t => t

theorem surface_container (path : List Step) : (container path).surface = container path := by
  rcases path with _ | ⟨_ | _, _⟩ <;> rfl

/-- A step that fits a tag leads to one place in it, where something may be found and something may be put. -/
structure Opens (s : Step) (root : Tag) (found : Option Tag) (put : Tag → Tag) : Prop where
  get (path : List Step) : get? (s :: path) root = found.bind (get? path)
  get_put (t : Tag) (path : List Step) : get? (s :: path) (put t) = get? path t
  set (v : Tag) (path : List Step) : Tag.set v (s :: path) root =
    (put (Tag.set v path (found.getD (container path))).1, (Tag.set v path (found.getD (container path))).2)
  set_put (v t : Tag) (path : List Step) :
    Tag.set v (s :: path) (put t) = (put (Tag.set v path t).1, (Tag.set v path t).2)
  put_found {t : Tag} (h : found = some t) : put t = root
  surface_put (t : Tag) : (put t).surface = root.surface
  other (s' : Step) : (∀ t q, get? (s' :: q) (put t) = get? (s' :: q) root) ∨
    ¬ s.Apart s' ∧ ∀ t q, get? (s' :: q) root = found.bind (get? q) ∧ get? (s' :: q) (put t) = get? q t

theorem opens_key (k : String) (fields : Dict Tag) :
    Opens (.key k) (.compound fields) (Dict.find? k fields) fun t ↦ .compound (Dict.insert k t fields) where
  get path := by simp [get?]
  get_put t path := by simp [get?]
  set v path := by simp [Tag.set]
  set_put v t path := by simp [Tag.set, Dict.insert_insert]
  put_found h := by rw [Dict.insert_of_find? h]
  surface_put t := rfl
  other s' := by
    cases s' with
    | index i => exact .inl fun t q ↦ by simp [get?]
    | key k' =>
      by_cases hk : k = k'
      · subst hk
        exact .inr ⟨by simp [Step.Apart], fun t q ↦ by simp [get?]⟩
      · exact .inl fun t q ↦ by simp [get?, hk]

theorem opens_index {i : Int} {j : Nat} {items : List Tag} (hj : position? items.length i = some j) :
    Opens (.index i) (.list items) items[j]? fun t ↦ .list (items.set j t) where
  get path := by simp [get?, hj]
  get_put t path := by simp [get?, hj, position?_lt hj]
  set v path := by simp [Tag.set, hj, position?_lt hj]
  set_put v t path := by simp [Tag.set, hj, position?_lt hj]
  put_found h := by
    obtain ⟨hlt, rfl⟩ := List.getElem?_eq_some_iff.1 h
    rw [List.set_getElem_self]
  surface_put t := by simp [surface]
  other s' := by
    cases s' with
    | key k => exact .inl fun t q ↦ by simp [get?]
    | index i' =>
      by_cases hi : position? items.length i' = some j
      · refine .inr ⟨?_, fun t q ↦ by simp [get?, hi, position?_lt hj]⟩
        simp only [position?, Option.ite_none_right_eq_some, Option.some.injEq] at hj hi
        simp only [Step.Apart]
        omega
      · refine .inl fun t q ↦ ?_
        cases hi' : position? items.length i' with
        | none => simp [get?, hi']
        | some j' =>
          have hne : j ≠ j' := fun h ↦ hi (h ▸ hi')
          simp [get?, hi', hne]

/-- A step fits a tag or is refused by it. -/
theorem opens_or_misfit (s : Step) (root : Tag) : (∃ found put, Opens s root found put) ∨
    (∃ e, ∀ v path, set v (s :: path) root = (root, some e)) ∧ ∀ path, get? (s :: path) root = none := by
  cases s with
  | key k =>
    cases root with
    | compound fields => exact .inl ⟨_, _, opens_key k fields⟩
    | _ => exact .inr ⟨⟨.notCompound, fun v path ↦ by simp [set]⟩, fun path ↦ by simp [get?]⟩
  | index i =>
    cases root with
    | list items =>
      cases hj : position? items.length i with
      | none => exact .inr ⟨⟨.outOfRange i, fun v path ↦ by simp [set, hj]⟩, fun path ↦ by simp [get?, hj]⟩
      | some j => exact .inl ⟨_, _, opens_index hj⟩
    | _ => exact .inr ⟨⟨.notList, fun v path ↦ by simp [set]⟩, fun path ↦ by simp [get?]⟩

variable {v w root : Tag} {path : List Step}

theorem get?_set (h : (set v path root).2 = none) : get? path (set v path root).1 = some v := by
  induction path generalizing root with
  | nil => rfl
  | cons s path ih =>
    obtain ⟨found, put, hopens⟩ | ⟨⟨e, hset⟩, -⟩ := opens_or_misfit s root
    · rw [hopens.set] at h ⊢
      rw [hopens.get_put, ih h]
    · simp [hset] at h

theorem set_of_get? (v : Tag) (h : get? path root = some w) :
    (set v path root).2 = none ∧ set w path root = (root, none) := by
  induction path generalizing root with
  | nil => exact ⟨rfl, by rw [set, Option.some.inj h]⟩
  | cons s path ih =>
    obtain ⟨found, put, hopens⟩ | ⟨-, hget⟩ := opens_or_misfit s root
    · rw [hopens.get, Option.bind_eq_some_iff] at h
      obtain ⟨t, rfl, h⟩ := h
      obtain ⟨hfits, hsame⟩ := ih h
      rw [hopens.set, hopens.set, Option.getD_some, hsame, hopens.put_found rfl]
      exact ⟨hfits, rfl⟩
    · simp [hget] at h

theorem set_set (v w : Tag) (path : List Step) (root : Tag) : set w path (set v path root).1 = set w path root := by
  induction path generalizing root with
  | nil => rfl
  | cons s path ih =>
    obtain ⟨found, put, hopens⟩ | ⟨⟨e, hset⟩, -⟩ := opens_or_misfit s root
    · rw [hopens.set, hopens.set_put, hopens.set, ih]
    · rw [hset, hset]

theorem get?_set_of_apart {common rest rest' : List Step} {s s' : Step} (hapart : s.Apart s')
    (h : (set v (common ++ s :: rest) root).2 = none) :
    get? (common ++ s' :: rest') (set v (common ++ s :: rest) root).1 = get? (common ++ s' :: rest') root := by
  induction common generalizing root with
  | nil =>
    obtain ⟨found, put, hopens⟩ | ⟨⟨e, hset⟩, -⟩ := opens_or_misfit s root
    · obtain hother | ⟨hsame, -⟩ := hopens.other s'
      · rw [List.nil_append, List.nil_append, hopens.set, hother]
      · exact absurd hapart hsame
    · simp [hset] at h
  | cons s₀ common ih =>
    simp only [List.cons_append] at h ⊢
    obtain ⟨found, put, hopens⟩ | ⟨⟨e, hset⟩, -⟩ := opens_or_misfit s₀ root
    · rw [hopens.set] at h ⊢
      rw [hopens.get_put, hopens.get, ih h]
      cases found with
      | none => exact get?_container (by simp)
      | some t => rfl
    · simp [hset] at h

/-- Paths are lenses. What was put at a path is found there; where something is found anything can be put, and putting
back what is there changes nothing; of two things put at a path only the second is left; and what is found elsewhere
stays. -/
theorem paths_are_lenses (root v w : Tag) (path : List Step) :
    ((set v path root).2 = none → get? path (set v path root).1 = some v) ∧
    (get? path root = some w → (set v path root).2 = none ∧ set w path root = (root, none)) ∧
    set w path (set v path root).1 = set w path root ∧
    ∀ common s rest s' rest', path = common ++ s :: rest → s.Apart s' → (set v path root).2 = none →
      get? (common ++ s' :: rest') (set v path root).1 = get? (common ++ s' :: rest') root := by
  refine ⟨get?_set, set_of_get? v, set_set v w path root, ?_⟩
  rintro common s rest s' rest' rfl hapart h
  exact get?_set_of_apart hapart h

/-- At every path there is what there was, on the surface, or an empty container where nothing was. -/
def Spared (t t' : Tag) : Prop :=
  ∀ q, (get? q t').map surface = (get? q t).map surface ∨
    get? q t = none ∧ ∃ path, (get? q t').map surface = some (container path)

theorem Spared.refl (t : Tag) : Spared t t := fun _ ↦ .inl rfl

theorem spared_set (h : (set v path root).2 ≠ none) : Spared root (set v path root).1 := by
  induction path generalizing root with
  | nil => exact absurd rfl h
  | cons s path ih =>
    obtain ⟨found, put, hopens⟩ | ⟨⟨e, hset⟩, -⟩ := opens_or_misfit s root
    · rw [hopens.set] at h ⊢
      rintro (_ | ⟨s', q⟩)
      · exact .inl (by simp [get?, hopens.surface_put])
      obtain hother | ⟨-, hsame⟩ := hopens.other s'
      · exact .inl (by rw [hother])
      obtain ⟨hroot, hput⟩ := hsame (set v path (found.getD (container path))).1 q
      rw [hroot, hput]
      have hspared := ih h q
      cases found with
      | some t => exact hspared
      | none =>
        -- below a container that was made on the way there was nothing
        cases q with
        | nil => exact .inr ⟨rfl, path, by simpa [get?, surface_container] using hspared⟩
        | cons s₀ q => simpa [get?_container] using hspared
    · rw [hset]
      exact .refl root

theorem spared_mapItems {f : List Tag → List Tag} (h : (mapItems f path root).2 ≠ none) :
    Spared root (mapItems f path root).1 := by
  unfold mapItems at h ⊢
  split at h
  · exact spared_set h
  · next hget => exact absurd (set_of_get? _ hget).1 h
  · exact .refl root

theorem spared_mergeAt {new : Dict Tag} (h : (mergeAt new path root).2 ≠ none) :
    Spared root (mergeAt new path root).1 := by
  unfold mergeAt at h ⊢
  split at h
  · exact spared_set h
  · next hget => exact absurd (set_of_get? _ hget).1 h
  · exact .refl root

end CommandPack.Tag

namespace CommandPack.Machine

open Stateful

def SameData (m m' : Machine) : Prop := ∀ place : Place, place.load m' = place.load m

instance : IsPreorder Machine SameData where
  refl _ _ := rfl
  trans _ _ _ h h' place := (h' place).trans (h place)

theorem sameData_new : AllowsNewData SameData := by
  refine ⟨fun m id h place ↦ ?_, fun m id h place ↦ ?_⟩ <;> cases place <;> try rfl
  all_goals
    next id' => by_cases hid : id = id' <;> simp_all [Place.load, Dict.has]

/-- The data of a machine are spared at every place. -/
def SparesData (m m' : Machine) : Prop :=
  ∀ place : Place, Tag.Spared (.compound (place.load m)) (.compound (place.load m'))

theorem SameData.spares {m m' : Machine} (h : SameData m m') : SparesData m m' := fun place ↦ by
  rw [h place]
  exact .refl _

theorem entity?_updateEntity (m : Machine) (id id' : Nat) {f : Entity → Entity} (hf : ∀ e, (f e).id = e.id) :
    (m.updateEntity id f).entity? id' = if id' = id then (m.entity? id').map f else m.entity? id' := by
  have hid (e : Entity) : (if e.id == id then f e else e).id = e.id := by split <;> simp [hf]
  have hsame : ((fun e : Entity ↦ e.id == id') ∘ fun e ↦ if e.id == id then f e else e) = fun e ↦ e.id == id' :=
    funext fun e ↦ by simp only [Function.comp_apply, hid]
  simp only [entity?, updateEntity, List.find?_map, hsame]
  cases he : m.entities.find? (·.id == id') with
  | none => simp
  | some e =>
    have hfound : e.id = id' := by simpa using List.find?_some he
    subst hfound
    by_cases h : e.id = id <;> simp [h]

theorem load_save (m : Machine) (fields : Dict Tag) (place place' : Place) :
    place'.load (place.save fields m) = place'.load m ∨ place' = place ∧ place'.load (place.save fields m) = fields := by
  cases place <;> cases place' <;> try exact .inl rfl
  case storage.storage id id' => by_cases h : id = id' <;> simp [Place.load, Place.save, h]
  case block.block key key' => by_cases h : key = key' <;> simp [Place.load, Place.save, h]
  case entity.entity id id' =>
    simp only [Place.load, Place.save, entity?_updateEntity m id id' (f := fun e ↦ { e with data := fields }) fun _ ↦ rfl]
    cases m.entity? id' <;> by_cases h : id' = id <;> simp [h]

/-- An action that spares the data of the machine whenever it fails. -/
def Careful {α : Type} (failed : α → Prop) (x : Action α) : Prop :=
  ∀ m, (∀ a, (x m).1 = .ok a → failed a) → SparesData m (x m).2

variable {α β : Type} {failed : β → Prop}

theorem Careful.of_keeps {x : Action β} (h : Keeps SameData x) : Careful failed x := fun m _ ↦ (h m).spares

theorem Careful.bind {x : Action α} {f : α → Action β} (hx : Keeps SameData x) (hf : ∀ a, Careful failed (f a)) :
    Careful failed (x >>= f) := by
  intro m h
  have hm := hx m
  rw [bind_apply] at h ⊢
  rcases hw : x m with ⟨e | a, m₁⟩ <;> rw [hw] at h hm
  · exact hm.spares
  · intro place
    rw [← hm place]
    exact hf a m₁ h place

theorem Careful.check {c : Prop} [Decidable c] (site : Site) (cause : Cause) {x : Action β} (hx : Careful failed x) :
    Careful failed (if c then (fault site cause : Action PUnit) >>= fun _ ↦ x else x) := by
  split
  · exact .bind (keeps_fault site cause) fun _ ↦ hx
  · exact hx

theorem changePlace_spares {change : Tag → Tag × Option Tag.Misfit} (m : Machine) (place : Place)
    (hchange : ∀ root, (change root).2 ≠ none → Tag.Spared root (change root).1) :
    ∃ r m', changePlace place change m = (.ok r, m') ∧ (r ≠ none → SparesData m m') := by
  have hspared := hchange (.compound (place.load m))
  rcases hroot : change (.compound (place.load m)) with ⟨t, r⟩
  rw [hroot] at hspared
  cases t with
  | compound fields =>
    refine ⟨r, place.save fields m, ?_, fun hr place' ↦ ?_⟩
    · simp [changePlace, bind_apply, hroot]
    · obtain hsame | ⟨rfl, hload⟩ := load_save m fields place place'
      · rw [hsame]
        exact .refl _
      · rw [hload]
        exact hspared hr
  | _ => exact ⟨r, m, by simp [changePlace, bind_apply, hroot], fun _ ↦ SameData.spares fun _ ↦ rfl⟩

theorem careful_changePlace {place : Place} {change : Tag → Tag × Option Tag.Misfit}
    {f : Option Tag.Misfit → Action β} (hchange : ∀ root, (change root).2 ≠ none → Tag.Spared root (change root).1)
    {b : β} (hdone : f none = pure b) (hb : ¬ failed b) (hmisfit : ∀ e m, (f (some e) m).2 = m) :
    Careful failed (changePlace place change >>= f) := by
  intro m h
  obtain ⟨r, m', hm, hspares⟩ := changePlace_spares m place hchange
  rw [bind_apply, hm, andThen_ok] at h ⊢
  cases r with
  | none => exact absurd (h b (by rw [hdone, pure_apply])) hb
  | some e =>
    rw [hmisfit]
    exact hspares (Option.some_ne_none e)

variable {site : Site} {actor : Actor}

theorem careful_modifyWith (place : Place) (path : List Tag.Step) (action : String) (v : Tag) :
    Careful (·.ok = false) (modifyWith site place path action v) := by
  unfold modifyWith
  dsimp only
  split
  · rw [pure_bind]
    exact careful_changePlace (fun _ ↦ Tag.spared_set) rfl (by simp) fun _ _ ↦ rfl
  split
  · rw [pure_bind]
    exact careful_changePlace (fun _ ↦ Tag.spared_mapItems) rfl (by simp) fun _ _ ↦ rfl
  split
  · rw [pure_bind]
    exact careful_changePlace (fun _ ↦ Tag.spared_mapItems) rfl (by simp) fun _ _ ↦ rfl
  split
  · split
    · rw [pure_bind]
      exact careful_changePlace (fun _ ↦ Tag.spared_mergeAt) rfl (by simp) fun _ _ ↦ rfl
    · exact .of_keeps (keeps_fault site _)
  · exact .of_keeps (keeps_fault site _)

theorem careful_dataModify (place : Place) (words : List String) :
    Careful (·.ok = false) (dataModify site actor place words) := by
  unfold dataModify
  split
  · refine .check site _ ?_
    refine .bind (acts_pathOrFault (blames_any site) _).all fun path ↦ ?_
    split
    · refine .bind (acts_modifySource (blames_any site) actor sameData_new _).all fun r ↦ ?_
      cases r with
      | none => exact .of_keeps keeps_pure
      | some v => exact careful_modifyWith place path _ v
    · exact .of_keeps (keeps_fault site _)
  · exact .of_keeps (keeps_fault site _)

theorem careful_data (words : List String) : Careful (·.ok = false) (data site actor ("modify" :: words)) := by
  unfold data
  split
  · next hwords =>
    cases hwords
    refine .bind (acts_dataTarget (blames_any site) actor sameData_new).all fun target ↦ ?_
    split
    · exact .of_keeps keeps_pure
    · exact careful_dataModify _ _
  · exact .of_keeps (keeps_fault site _)

theorem careful_storeData (place : Place) (v : Int32) (words : List String) :
    Careful (fun _ ↦ False) (storeData site place v words) := by
  unfold storeData
  split
  · refine .bind (acts_pathOrFault (blames_any site) _).all fun steps ↦ ?_
    refine .bind (acts_scaleOrFault (blames_any site) _).all fun scale ↦ ?_
    split
    · exact .of_keeps (keeps_fault site _)
    · exact careful_changePlace (fun _ ↦ Tag.spared_set) rfl id fun _ _ ↦ rfl
  · exact .of_keeps keeps_pure

theorem careful_store {s : Store} (h : s.words.head? ≠ some "score") (r : Result) :
    Careful (fun _ ↦ False) (s.apply site actor r) := by
  unfold Store.apply
  dsimp only
  split
  · next hwords => simp [hwords] at h
  · refine .bind (acts_dataTarget (blames_any site) actor sameData_new).all fun target ↦ ?_
    split
    · exact .of_keeps keeps_pure
    · exact careful_storeData _ _ _

/-- A change of data that fails or stops leaves at every path of every place what was found there, but for the compounds
and lists that it made on the way down, which are empty or hold each other. -/
theorem failed_changes_spare_data (site : Site) (actor : Actor) (m : Machine) :
    (∀ words, (∀ r, (data site actor ("modify" :: words) m).1 = .ok r → r.ok = false) →
      SparesData m (data site actor ("modify" :: words) m).2) ∧
    ∀ (s : Store) (r : Result), s.words.head? ≠ some "score" → (s.apply site actor r m).1 ≠ .ok () →
      SparesData m (s.apply site actor r m).2 :=
  ⟨fun words h ↦ careful_data words m h, fun _ r hs h ↦ careful_store hs r m fun _ ↦ h⟩

/-- An index into a list that was made on the way is out of range, and the containers made stay. -/
theorem failed_set_leaves_containers :
    Tag.set (.int 2) [.key "a", .key "b", .index 0] (.compound [("x", .int 1)]) =
      (.compound [("a", .compound [("b", .list [])]), ("x", .int 1)], some (.outOfRange 0)) := by
  rfl

end CommandPack.Machine
