import Mathlib
import CommandPack.Proofs.Furnishing
import CommandPack.Proofs.Paths
import CommandPack.Proofs.Quoting

/-!
Instances of templates. A template keeps each instance under the text of its arguments, so two calls share an
instance just if their arguments have one text. Arguments in which no sign of that text occurs, and no text that
reads like a number, have one text just if they are the same.
-/

namespace CommandPack.Dict

variable {α : Type} {d e : Dict α}

theorem pairwise_insert (k : String) (a : α) (h : (keys d).Pairwise (· < ·)) :
    (keys (insert k a d)).Pairwise (· < ·) := by
  rw [insert]
  split
  · rwa [keys_replace]
  next hk =>
  replace hk : k ∉ keys d := find?_eq_none_iff.1 (by simpa [has] using hk)
  induction d with
  | nil => exact List.pairwise_singleton _ _
  | cons e d ih =>
    obtain ⟨he, hd⟩ := List.pairwise_cons.1 h
    obtain ⟨hne, hk⟩ := not_or.1 (mt List.mem_cons.2 hk)
    rw [place]
    split
    · next hlt => exact List.pairwise_cons.2 ⟨List.forall_mem_cons.2 ⟨hlt, fun x hx ↦ hlt.trans (he x hx)⟩, h⟩
    · next hlt =>
      refine List.pairwise_cons.2 ⟨fun x hx ↦ ?_, ih hd hk⟩
      rcases List.mem_cons.1 (((perm_place k a d).map _).mem_iff.1 hx) with rfl | hx
      · exact lt_of_le_of_ne (not_lt.1 hlt) (Ne.symm hne)
      · exact he x hx

theorem perm_merge (h : (keys (d ++ e)).Nodup) : (merge d e).Perm (d ++ e) := by
  induction e generalizing d with
  | nil => simp [merge]
  | cons x e ih =>
    obtain ⟨k, a⟩ := x
    have hmoved : (((k, a) :: d) ++ e).Perm (d ++ (k, a) :: e) := List.perm_middle.symm
    have hk : find? k d = none := by
      have hnodup : (keys (((k, a) :: d) ++ e)).Nodup := (hmoved.map _).nodup_iff.2 h
      simp only [keys, List.cons_append, List.map_cons, List.nodup_cons, List.map_append, List.mem_append, not_or] at hnodup
      exact find?_eq_none_iff.2 hnodup.1.1
    have hplaced : insert k a d = place k a d := by simp [insert, has, hk]
    have hperm := ((perm_place k a d).append_right e).trans hmoved
    rw [merge, List.foldl_cons]
    dsimp only
    rw [hplaced]
    exact (ih ((hperm.map _).nodup_iff.2 h)).trans hperm

theorem perm_ofList (h : (keys d).Nodup) : (ofList d).Perm d := perm_merge h

/-- The order in which entries are put into a dictionary does not show. -/
theorem ofList_eq_iff (hd : (keys d).Nodup) (he : (keys e).Nodup) : ofList d = ofList e ↔ d.Perm e := by
  have hsorted (d : Dict α) : (ofList d).Pairwise fun x y ↦ x.1 < y.1 := by
    have hkeys : (keys (ofList d)).Pairwise (· < ·) :=
      List.foldlRecOn (motive := fun d ↦ (keys d).Pairwise (· < ·)) d _ .nil fun _ h x _ ↦ pairwise_insert x.1 x.2 h
    exact List.pairwise_map.1 hkeys
  have hperm := perm_ofList hd
  have hperm' := perm_ofList he
  constructor
  · intro h
    rw [h] at hperm
    exact hperm.symm.trans hperm'
  · intro h
    refine List.Perm.eq_of_pairwise (fun x y _ _ hlt hgt ↦ ?_) (hsorted d) (hsorted e) (hperm.trans (h.trans hperm'.symm))
    exact absurd hgt (lt_asymm hlt)

end CommandPack.Dict

namespace CommandPack.Graph

open Stateful Text

variable {s s₁ s₂ : Session} {t fn : Nat} {args a b : Dict Datum} {build : Build (Option NodeId)}

/-- A value whose text in a key is that of no other such value. -/
def Plain : Datum → Prop
  | .int _ => True
  | .string s => ',' ∉ s.toList ∧ ∀ n : Int, s ≠ toString n
  | _ => False

structure Clear (e : String × Datum) : Prop where
  key : '=' ∉ e.1.toList ∧ ',' ∉ e.1.toList
  value : Plain e.2

def entryText (e : String × Datum) : String := e.1 ++ "=" ++ e.2.display

theorem Plain.display_injective {v v' : Datum} (hv : Plain v) (hv' : Plain v') (h : v.display = v'.display) : v = v' := by
  cases v with
  | int n =>
    cases v' with
    | int n' => exact congrArg Datum.int (Int.repr_injective h)
    | string s' => exact absurd h.symm (hv'.2 n)
    | _ => exact hv'.elim
  | string s =>
    cases v' with
    | int n' => exact absurd h (hv.2 n')
    | string s' => exact congrArg Datum.string h
    | _ => exact hv'.elim
  | _ => exact hv.elim

theorem Clear.entryText_injective {e e' : String × Datum} (he : Clear e) (he' : Clear e') (h : entryText e = entryText e') :
    e = e' := by
  have hchars : e.1.toList ++ '=' :: e.2.display.toList = e'.1.toList ++ '=' :: e'.2.display.toList := by
    simpa [entryText] using congrArg String.toList h
  have hpieces := congrArg (splitChars '=') hchars
  rw [splitChars_append he.key.1, splitChars_append he'.key.1] at hpieces
  have hkey := (List.cons.inj hpieces).1
  rw [hkey] at hchars
  have hvalue := (List.cons.inj (List.append_cancel_left hchars)).2
  exact Prod.ext (String.toList_injective hkey) (he.value.display_injective he'.value (String.toList_injective hvalue))

theorem Clear.unbroken {e : String × Datum} (he : Clear e) : ',' ∉ (entryText e).toList := by
  have hvalue : ',' ∉ e.2.display.toList := by
    obtain ⟨k, v⟩ := e
    cases v with
    | int n => exact fun h ↦ absurd (isDigit_or_minus_of_mem_toString h) (by decide)
    | string s => exact he.value.1
    | _ => exact he.value.elim
  simp [entryText, he.key.2, hvalue]

theorem split_argsKey (hne : a ≠ []) (ha : ∀ e ∈ a, Clear e) : split ',' (argsKey a) = a.map entryText := by
  have hparts : ∀ part ∈ a.map entryText, ',' ∉ part.toList := by
    intro part hpart
    obtain ⟨e, he, rfl⟩ := List.mem_map.1 hpart
    exact (ha e he).unbroken
  change split ',' (join "," (a.map entryText)) = _
  rw [split_join_flatMap rfl (by simpa using hne), flatMap_split hparts]

theorem argsKey_eq_empty : argsKey a = "" ↔ a = [] := by
  refine ⟨fun h ↦ ?_, fun h ↦ h ▸ rfl⟩
  rcases a with _ | ⟨⟨k, v⟩, _ | ⟨e, a⟩⟩
  · rfl
  all_goals
    have hchars := congrArg String.toList h
    simp [argsKey, join, String.intercalate_cons_cons] at hchars

theorem argsKey_inj (ha : ∀ e ∈ a, Clear e) (hb : ∀ e ∈ b, Clear e) : argsKey a = argsKey b ↔ a = b := by
  refine ⟨fun h ↦ ?_, fun h ↦ h ▸ rfl⟩
  by_cases hnil : a = [] ∨ b = []
  · rcases hnil with rfl | rfl
    · exact (argsKey_eq_empty.1 h.symm).symm
    · exact argsKey_eq_empty.1 h
  · obtain ⟨hane, hbne⟩ := not_or.1 hnil
    have hmap : a.map entryText = b.map entryText := by rw [← split_argsKey hane ha, h, split_argsKey hbne hb]
    clear h hnil hane hbne
    induction a generalizing b with
    | nil => exact (List.map_eq_nil_iff.1 hmap.symm).symm
    | cons e a ih =>
      obtain ⟨e', b, rfl⟩ := List.exists_cons_of_ne_nil (fun h ↦ by simp [h] at hmap : b ≠ [])
      obtain ⟨he, ha⟩ := List.forall_mem_cons.1 ha
      obtain ⟨he', hb⟩ := List.forall_mem_cons.1 hb
      obtain ⟨hhead, htail⟩ := List.cons.inj hmap
      rw [he.entryText_injective he' hhead, ih ha hb htail]

theorem instantiate_known (h : (instances (s.node t)).lookup (argsKey args) = some fn) :
    instantiate t args build s = (.ok fn, s) := by
  simp only [instantiate, bind_apply, node_apply, andThen_ok, h, pure_apply]

theorem instantiate_new (h : (instances (s.node t)).lookup (argsKey args) = none) (hbuild : build s = (.ok (some fn), s₁))
    (hparent : (s₁.node fn).parent = some t) (hfinish : finish fn s₁ = (.ok (), s₂))
    (hkept : (s₂.node t).role = (s.node t).role) :
    instantiate t args build s =
      (.ok fn, recast s₂ t (.template (instances (s.node t) ++ [(argsKey args, fn)]))) := by
  have hset : setInstance (argsKey args) fn (instances (s₂.node t)) = instances (s.node t) ++ [(argsKey args, fn)] := by
    rw [instances, hkept, ← instances, setInstance, List.filter_eq_self.2]
    exact fun e he ↦ bne_comm.trans (List.lookup_eq_none_iff.1 h e he)
  simp only [instantiate, bind_apply, node_apply, andThen_ok, h, hbuild, hparent, if_true, hfinish]
  rw [update_apply (fun n ↦ .template (setInstance (argsKey args) fn (instances n))), hset, andThen_ok, pure_apply]

/-- Makes a new function in a template whenever it is asked for one, and leaves the record of the template alone. -/
def Supplies (t : Nat) (build : Build (Option NodeId)) : Prop :=
  ∀ s, t < s.nodes.size → Runs build s fun r s' ↦ (s'.node t).role = (s.node t).role ∧ ∃ fn f, r = some fn ∧
    (s'.node fn).parent = some t ∧ (s'.node fn).role = .function f ∧ (s.nodes.size ≤ fn ∧ fn < s'.nodes.size) ∧
    s.nodes.size ≤ f.current ∧ f.current < s'.nodes.size

/-- A template whose instances are different functions. -/
structure Memoizes (s : Session) (t : Nat) (m : List (String × Nat)) : Prop where
  lt : t < s.nodes.size
  role : (s.node t).role = .template m
  fresh : ∀ e ∈ m, e.2 < s.nodes.size
  nodup : (m.map Prod.snd).Nodup

variable {m m' : List (String × Nat)}

theorem Memoizes.eq_of_lookup (h : Memoizes s t m) {k k' : String} (hk : m.lookup k = some fn)
    (hk' : m.lookup k' = some fn) : k = k' := by
  have hmem {k : String} (hk : m.lookup k = some fn) : (k, fn) ∈ m := by
    obtain ⟨l₁, l₂, rfl, -⟩ := List.lookup_eq_some_iff.1 hk
    simp
  exact congrArg Prod.fst (List.inj_on_of_nodup_map h.nodup (hmem hk) (hmem hk') rfl)

theorem Memoizes.instantiate (h : Memoizes s t m) (hbuild : Supplies t build) (args : Dict Datum) :
    Runs (instantiate t args build) s fun fn s' ↦ ∃ m', Memoizes s' t m' ∧ m <+: m' ∧ m'.lookup (argsKey args) = some fn := by
  have hinstances : instances (s.node t) = m := by rw [instances, h.role]
  cases hfind : m.lookup (argsKey args) with
  | some fn => exact ⟨fn, s, instantiate_known (by rw [hinstances, hfind]), m, h, List.prefix_rfl, hfind⟩
  | none =>
    obtain ⟨_, s₁, hrun, hkept, fn, f, rfl, hparent, hrole, hfn, hcurrent⟩ := hbuild s h.lt
    obtain ⟨s₂, hfinish, hspares⟩ := finish_spares hfn.2 hrole hcurrent.2 ⟨hfn.1, hcurrent.1⟩
    have hnew := instantiate_new (by rw [hinstances, hfind]) hrun hparent hfinish ((hspares.role h.lt).trans hkept)
    rw [hinstances] at hnew
    have hsize : s.nodes.size ≤ s₂.nodes.size := (hfn.1.trans hfn.2.le).trans hspares.size
    have ht : t < s₂.nodes.size := h.lt.trans_le hsize
    refine ⟨fn, _, hnew, m ++ [(argsKey args, fn)], ⟨by simpa using ht, ?_, fun e he ↦ ?_, ?_⟩, List.prefix_append _ _, ?_⟩
    · rw [role_recast ht, if_pos rfl]
    · rw [size_recast]
      rcases List.mem_append.1 he with he | he
      · exact (h.fresh e he).trans_le hsize
      · exact List.mem_singleton.1 he ▸ hfn.2.trans_le hspares.size
    · rw [List.map_append, List.nodup_append]
      refine ⟨h.nodup, List.nodup_singleton _, ?_⟩
      rintro _ hx _ hy rfl
      obtain ⟨e, he, heq⟩ := List.mem_map.1 hx
      have hold := h.fresh e he
      rw [heq, List.mem_singleton.1 hy] at hold
      exact absurd hfn.1 hold.not_ge
    · simp [List.lookup_append, hfind]

theorem Memoizes.mapM {build : Dict Datum → Build (Option NodeId)} (h : Memoizes s t m)
    (hbuild : ∀ args, Supplies t (build args)) (calls : List (Dict Datum)) :
    Runs (calls.mapM fun args ↦ Graph.instantiate t args (build args)) s fun fns s' ↦ ∃ m', Memoizes s' t m' ∧ m <+: m' ∧
      calls.map (fun args ↦ m'.lookup (argsKey args)) = fns.map some := by
  induction calls generalizing s m with
  | nil => exact .pure ⟨m, h, List.prefix_rfl, rfl⟩
  | cons args calls ih =>
    rw [List.mapM_cons]
    refine .bind (h.instantiate (hbuild args) args) ?_
    rintro fn s₁ ⟨m₁, h₁, hm₁, hfn⟩
    refine .bind (ih h₁) ?_
    rintro fns s₂ ⟨m₂, h₂, hm₂, hfns⟩
    refine .pure ⟨m₂, h₂, hm₁.trans hm₂, ?_⟩
    obtain ⟨rest, rfl⟩ := hm₂
    rw [List.map_cons, List.map_cons, hfns, List.lookup_append, hfn]
    rfl

/-- Calls of a template get instances by the texts of their arguments, one for each text, whatever the order in which
the arguments are given. So calls with clear arguments share an instance just if their arguments are the same. -/
theorem instances_shared_iff {build : Dict Datum → Build (Option NodeId)} (h : Memoizes s t m)
    (hbuild : ∀ args, Supplies t (build args)) {calls : List (List (String × Datum))}
    (hcalls : ∀ args ∈ calls, (Dict.keys args).Nodup) :
    let key (args : List (String × Datum)) : String := argsKey (Dict.ofList args)
    ∃ (f : String → Nat) (s' : Session),
      (calls.mapM fun args ↦ instantiate t (Dict.ofList args) (build (Dict.ofList args))) s =
        (.ok (calls.map fun args ↦ f (key args)), s') ∧
      ∀ a ∈ calls, ∀ b ∈ calls, (f (key a) = f (key b) ↔ key a = key b) ∧
        ((∀ e ∈ a, Clear e) → (∀ e ∈ b, Clear e) → (f (key a) = f (key b) ↔ a.Perm b)) := by
  intro key
  obtain ⟨fns, s', hrun, m', hm', -, hfns⟩ := h.mapM hbuild (calls.map Dict.ofList)
  rw [List.mapM_map] at hrun
  rw [List.map_map] at hfns
  have hlookup : ∀ a ∈ calls, ∃ fn, m'.lookup (key a) = some fn := by
    intro a ha
    have hmem : m'.lookup (key a) ∈ fns.map some := hfns ▸ List.mem_map_of_mem ha
    obtain ⟨fn, -, hfn⟩ := List.mem_map.1 hmem
    exact ⟨fn, hfn.symm⟩
  have hresult : fns = calls.map fun a ↦ (m'.lookup (key a)).getD 0 := by
    have hget := congrArg (List.map (Option.getD · 0)) hfns
    simpa [key, Function.comp_def] using hget.symm
  refine ⟨fun k ↦ (m'.lookup k).getD 0, s', hresult ▸ hrun, fun a ha b hb ↦ ?_⟩
  obtain ⟨fn, hfn⟩ := hlookup a ha
  obtain ⟨fn', hfn'⟩ := hlookup b hb
  have hkeys : (m'.lookup (key a)).getD 0 = (m'.lookup (key b)).getD 0 ↔ key a = key b := by
    refine ⟨fun heq ↦ ?_, fun heq ↦ by rw [heq]⟩
    rw [hfn, hfn'] at heq
    exact hm'.eq_of_lookup hfn (hfn'.trans (congrArg some heq.symm))
  refine ⟨hkeys, fun hclear hclear' ↦ hkeys.trans ?_⟩
  have hperm := Dict.perm_ofList (hcalls a ha)
  have hperm' := Dict.perm_ofList (hcalls b hb)
  rw [← Dict.ofList_eq_iff (hcalls a ha) (hcalls b hb)]
  exact argsKey_inj (fun e he ↦ hclear e (hperm.mem_iff.1 he)) fun e he ↦ hclear' e (hperm'.mem_iff.1 he)

theorem parent_functionMade {description entryName name : String} {tags : List Path} (ht : t < s.nodes.size) (id : Nat) :
    ((functionMade s t name entryName tags description).node id).parent =
      if id = s.nodes.size then some t else if id = s.nodes.size + 1 then some s.nodes.size else (s.node id).parent := by
  rw [functionMade, (parent_name_made (by simp) _ _ _).1, (parent_name_made ht _ _ _).1, size_made]
  by_cases hid : id = s.nodes.size
  · rw [if_neg (by omega), if_pos hid, if_pos hid]
  · rw [if_neg hid, if_neg hid]

/-- Makes a function that is named after the arguments. -/
def supply (t : NodeId) (args : Dict Datum) : Build (Option NodeId) := do
  let fn ← createFunction t (argsKey args) "run" [] ""
  return some fn

theorem supplies_supply (t : NodeId) (args : Dict Datum) : Supplies t (supply t args) := by
  intro s ht
  have hdrafted := drafted_functionMade ht (argsKey args) "run" [] ""
  refine .step (createFunction_apply ..) (.pure ⟨(spares_functionMade le_rfl ht _ _ _ _).role ht, _, _, rfl, ?_, hdrafted.role,
    ⟨le_rfl, hdrafted.lt⟩, Nat.le_succ _, hdrafted.entry.lt⟩)
  rw [parent_functionMade ht, if_pos rfl]

def press : Session := made (withRoot { objective := .lit "dp" } "demo") 0 "mk" (.template [])

theorem memoizes_press : Memoizes press 1 [] := ⟨by decide, rfl, by simp, by simp⟩

theorem clear_text : Clear ("m", .string "x") := by
  refine ⟨by decide, by decide, fun n h ↦ ?_⟩
  have hmem : 'x' ∈ (toString n).toList := h ▸ List.mem_singleton_self 'x'
  exact absurd (isDigit_or_minus_of_mem_toString hmem) (by decide)

def reordered : List (List (String × Datum)) :=
  [[("n", .int 1), ("m", .string "x")], [("m", .string "x"), ("n", .int 1)], [("m", .string "x")]]

theorem instances_shared_iff_reordered : ∃ (f : String → Nat) (s' : Session),
    (reordered.mapM fun args ↦ instantiate 1 (Dict.ofList args) (supply 1 (Dict.ofList args))) press =
      (.ok [f "m=x,n=1", f "m=x,n=1", f "m=x"], s') ∧ f "m=x,n=1" ≠ f "m=x" := by
  have hkeys : ∀ args ∈ reordered, (Dict.keys args).Nodup := by decide
  obtain ⟨f, s', hrun, hshared⟩ := instances_shared_iff memoizes_press (supplies_supply 1) hkeys
  refine ⟨f, s', hrun, fun h ↦ ?_⟩
  have hperm := ((hshared _ List.mem_cons_self [("m", .string "x")] (by simp [reordered])).2 ?_ ?_).1 h
  · exact absurd hperm.length_eq (by decide)
  · simpa [clear_text] using (⟨by decide, trivial⟩ : Clear ("n", .int 1))
  · simpa using clear_text

/-- A number and its text are different arguments of one instance. -/
theorem number_shares_instance : ((([[("n", .int 1)], [("n", .string "1")]] : List (Dict Datum)).mapM fun args ↦
    instantiate 1 args (supply 1 args)) press).1 = .ok [2, 2] := rfl

end CommandPack.Graph
