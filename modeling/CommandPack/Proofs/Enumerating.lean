import Mathlib
import CommandPack.Proofs.Drafting
import CommandPack.Proofs.Emission
import CommandPack.Proofs.Gathering
import CommandPack.Proofs.Labelling

/-!
Graphs made by factories. Whatever is made in whatever order, the blocks below a node are found again, each once, in its
place and by its path, unless a name was used twice or a function was left open.
-/

namespace CommandPack.Graph

open Relation Stateful

/-- What makes nodes and ends functions. -/
inductive Factory where
  | root (name : String)
  | group (parent : NodeId) (name : String)
  | function (parent : NodeId) (name entryName : String) (tags : List Path) (description : String)
  | block (parent : NodeId) (name : String) (tags : List Path) (description : String)
  | family (parent : NodeId) (name : String) (parents : List NodeId)
  | template (parent : NodeId) (name : String)
  | branch (fn : NodeId) (cond : Condition) (withElse : Bool)
  | loop (fn : NodeId) (cond : Condition)
  | finish (fn : NodeId)

def isFunction (n : Node) : Bool :=
  match n.role with
  | .function _ => true
  | _ => false

theorem isFunction_of_node {s : Session} {fn : Nat} (h : isFunction (s.node fn) = true) : IsFunction s fn := by
  rw [isFunction] at h
  split at h
  · exact ⟨_, ‹_›⟩
  · cases h

namespace Factory

def run : Factory → Build Unit
  | root name => (fun _ ↦ ()) <$> Graph.root name
  | group parent name => (fun _ ↦ ()) <$> createGroup parent name
  | function parent name entryName tags description =>
    (fun _ ↦ ()) <$> createFunction parent name entryName tags description
  | block parent name tags description => (fun _ ↦ ()) <$> createBlock parent name { tags, description }
  | family parent name parents => (fun _ ↦ ()) <$> createClass parent name parents
  | template parent name => (fun _ ↦ ()) <$> createTemplate parent name
  | branch fn cond withElse => (fun _ ↦ ()) <$> Graph.branch fn cond withElse
  | loop fn cond => (fun _ ↦ ()) <$> Graph.loop fn cond
  | finish fn => Graph.finish fn

/-- Nodes are made below containers, and only functions are built on and ended. -/
def fits (s : Session) : Factory → Bool
  | root _ => true
  | group parent .. | function parent .. | block parent .. | family parent .. | template parent .. =>
    parent < s.nodes.size && (s.node parent).isContainer
  | branch fn .. | loop fn .. | finish fn => isFunction (s.node fn)

end Factory

/-- The graph after a call of a factory, if it can be called. -/
def perform (s : Session) (f : Factory) : Session := if f.fits s then (f.run s).2 else s

variable {V : Vocabulary} {s s' : Session} {id parent b c : Nat} {name : String}

/-- Two nodes were made with the same name below the same parent. -/
def Clash (s : Session) : Prop :=
  ∃ a b p, a ≠ b ∧ (s.node a).parent = some p ∧ (s.node b).parent = some p ∧ (s.node a).name = (s.node b).name

theorem Clash.before (h : Clash s) (hs : Before s s') : Clash s' := by
  obtain ⟨a, b, p, hne, ha, hb, hname⟩ := h
  obtain ⟨-, ha', hnamea⟩ := hs.node (lt_of_parent ha)
  obtain ⟨-, hb', hnameb⟩ := hs.node (lt_of_parent hb)
  exact ⟨a, b, p, hne, ha'.trans ha, hb'.trans hb, by rw [hnamea, hnameb, hname]⟩

/-- Children are in the order they were made, and if the graph failed, then because a name was used twice. -/
structure Enumerated (s : Session) : Prop where
  rising (id : Nat) : ((s.node id).children.map (·.2)).Pairwise (· < ·)
  clash (h : s.failure ≠ none) : Clash s

theorem Enumerated.rests (h : Enumerated s) (hs : Rests s s') (hbefore : Before s s') : Enumerated s' where
  rising id := hs.children id ▸ h.rising id
  clash hf := (h.clash (hs.failure ▸ hf)).before hbefore

theorem Enumerated.made (h : Enumerated s) (hr : Rooted V s) (hp : parent < s.nodes.size) (name : String) (r : Role) :
    Enumerated (made s parent name r) := by
  refine ⟨fun id ↦ ?_, fun hf ↦ ?_⟩
  · rw [children_made hp]
    split
    · rw [List.map_append, List.pairwise_append]
      refine ⟨h.rising id, List.pairwise_singleton _ _, fun c hc n hn ↦ ?_⟩
      obtain ⟨x, hx, rfl⟩ := List.mem_map.1 hc
      rw [List.mem_singleton.1 hn]
      exact (hr.child hx).1
    · exact h.rising id
  · by_cases hname : name ∈ names s parent
    · obtain ⟨⟨_, c⟩, hc, rfl⟩ := List.mem_map.1 hname
      obtain ⟨hlt, hparent, hcname⟩ := hr.child hc
      obtain ⟨hparent', hname'⟩ := parent_name_made hp _ r c
      obtain ⟨hnew, hnewName⟩ := parent_name_made hp _ r s.nodes.size
      rw [if_neg hlt.ne] at hparent' hname'
      rw [if_pos rfl] at hnew hnewName
      exact ⟨c, s.nodes.size, parent, hlt.ne, hparent'.trans hparent, hnew, by rw [hname', hnewName, hcname]⟩
    · rw [failure_made_of_notMem hp hname] at hf
      exact (h.clash hf).before (before_made hp)

theorem Alters.enumerated (h : Alters V s s') (hs : Sane V s) (he : Enumerated s) : Enumerated s' := by
  have hbefore := h.before
  cases h with
  | make hparent => exact he.made hs.rooted hparent _ _
  | makeFunction hparent hcontainer hname =>
    exact (he.made hs.rooted hparent _ _).made (hs.rooted.made hparent hcontainer hname _) (by simp) _ _
  | note hnodes hfailure => exact he.rests (rests_of_nodes hnodes hfailure) hbefore
  | fill | steer | record => exact he.rests (rests_recast ..) hbefore

theorem Altered.enumerated (h : Altered V s s') (hs : Sane V s) (he : Enumerated s) : Enumerated s' := by
  induction h with
  | refl => exact he
  | tail hsteps hstep ih => exact hstep.enumerated (Altered.sane hsteps hs) ih

/-- Everything may be named and said. -/
def anyWords : Vocabulary :=
  ⟨fun _ ↦ True, fun _ ↦ True, fun _ ↦ True, fun _ ↦ True, fun _ ↦ True, fun _ _ ↦ True, fun _ ↦ True, fun _ ↦ True⟩

theorem anyWords_usual : anyWords.Usual := fun _ ↦ trivial

theorem snd_map_run {α β : Type} (g : α → β) (x : Build α) (s : Session) : ((g <$> x) s).2 = (x s).2 := by
  rw [Stateful.map_apply]
  rcases x s with ⟨e | a, s'⟩ <;> rfl

theorem Factory.altered {f : Factory} (hs : Sane anyWords s) (hf : f.fits s = true) (hroot : ∀ name, f ≠ .root name) :
    Altered anyWords s (f.run s).2 := by
  cases f with
  | root name => exact absurd rfl (hroot name)
  | group parent name | template parent name | block parent name tags description =>
    simp only [fits, Bool.and_eq_true, decide_eq_true_eq] at hf
    simp only [run, snd_map_run, createGroup, createTemplate, createBlock, create_apply]
    exact .single (.make hf.1 hf.2 trivial (by constructor <;> rfl))
  | function parent name entryName tags description =>
    simp only [fits, Bool.and_eq_true, decide_eq_true_eq] at hf
    rw [run, snd_map_run, createFunction_apply]
    exact .single (.makeFunction hf.1 hf.2 trivial trivial)
  | family parent name parents =>
    simp only [fits, Bool.and_eq_true, decide_eq_true_eq] at hf
    rw [run, snd_map_run, createClass, bind_apply, get_apply, andThen_ok, create_apply]
    exact .single (.make hf.1 hf.2 trivial trivial)
  | branch fn cond withElse =>
    rw [run, snd_map_run]
    exact (altered_branch anyWords_usual hs (isFunction_of_node hf) cond withElse).1
  | loop fn cond =>
    rw [run, snd_map_run]
    exact (altered_loop anyWords_usual hs (isFunction_of_node hf) cond).1
  | finish fn =>
    have hsound : Sound anyWords (Altered anyWords s) {fn} s := ⟨.refl, hs, fun _ h ↦ h ▸ isFunction_of_node hf⟩
    exact (calm_finish (Set.mem_singleton fn) (invariant_sound anyWords_usual .tail) le_rfl hsound).1

/-- A graph in order, in which all that was made is enumerated. -/
def Kept (s : Session) : Prop := Enumerated s ∧ Sane anyWords s

theorem Kept.perform (h : Kept s) (f : Factory) : Kept (perform s f) := by
  obtain ⟨he, hs⟩ := h
  rw [Graph.perform]
  split
  · rename_i hf
    by_cases hroot : ∃ name, f = .root name
    · obtain ⟨name, rfl⟩ := hroot
      refine ⟨⟨fun id ↦ ?_, fun hfail ↦ (he.clash hfail).before (before_withRoot s name)⟩, hs.withRoot trivial⟩
      change (((withRoot s name).node id).children.map (·.2)).Pairwise (· < ·)
      rw [node_withRoot]
      split
      · exact .nil
      · exact he.rising id
    · have hsteps := f.altered hs hf fun name hname ↦ hroot ⟨name, hname⟩
      exact ⟨hsteps.enumerated hs he, hsteps.sane hs⟩
  · exact ⟨he, hs⟩

theorem kept_start : Kept {} := by
  refine ⟨⟨fun id ↦ ?_, fun h ↦ absurd rfl h⟩, Sane.start rfl⟩
  rw [children_of_size_le (Nat.zero_le id)]
  exact .nil

theorem kept_foldl (fs : List Factory) (h : Kept s) : Kept (fs.foldl perform s) := by
  induction fs generalizing s with
  | nil => exact h
  | cons f fs ih => exact ih (h.perform f)

/-- The blocks of a node: the blocks below a container, and a block itself. -/
def blocksAt (s : Session) (id : Nat) : List Nat := if (s.node id).isContainer then (blocks s id).1 else [id]

/-- A function that was not ended. -/
def IsUnended (s : Session) (id : Nat) : Prop := ∃ f, (s.node id).role = .function f ∧ f.ended = false

theorem Rooted.lt_child (h : Rooted V s) (hc : c ∈ (s.node id).children.map (·.2)) : id < c ∧ c < s.nodes.size := by
  obtain ⟨x, hx, rfl⟩ := List.mem_map.1 hc
  obtain ⟨hlt, hparent, -⟩ := h.child hx
  exact ⟨(h.grafted hparent).1, hlt⟩

section Gathered

variable {below below' : NodeId → List NodeId × List Problem} {ids : List NodeId}

theorem gatherAll_congr (h : ∀ c ∈ ids, below c = below' c) : gatherAll s below ids = gatherAll s below' ids := by
  induction ids with
  | nil => rfl
  | cons c ids ih =>
    rw [gatherAll, gatherAll, h c List.mem_cons_self, ih fun c hc ↦ h c (List.mem_cons_of_mem _ hc)]

theorem fst_gatherAll : (gatherAll s below ids).1 =
    ids.flatMap fun c ↦ if (s.node c).isContainer then (below c).1 else [c] := by
  induction ids with
  | nil => rfl
  | cons c ids ih =>
    rw [gatherAll, List.flatMap_cons, ← ih, Node.isContainer]
    cases (s.node c).role <;> rfl

theorem snd_gatherAll : (gatherAll s below ids).2 ≠ [] ↔
    ∃ c ∈ ids, IsUnended s c ∨ ((s.node c).isContainer = true ∧ (below c).2 ≠ []) := by
  induction ids with
  | nil => simp [gatherAll]
  | cons c ids ih =>
    rw [gatherAll, List.exists_mem_cons_iff, ← ih, Node.isContainer, IsUnended]
    cases hrole : (s.node c).role with
    | function f => cases hended : f.ended <;> simp [hended, imp_iff_not_or]
    | group | family | template | block => simp [imp_iff_not_or]

end Gathered

theorem Rooted.gather_eq_gather (h : Rooted V s) {fuel fuel' : Nat} (hfuel : s.nodes.size ≤ fuel + id)
    (hfuel' : s.nodes.size ≤ fuel' + id) : gather s fuel id = gather s fuel' id := by
  induction fuel generalizing fuel' id with
  | zero =>
    cases fuel' with
    | zero => rfl
    | succ fuel' =>
      rw [gather, gather, children_of_size_le (by omega)]
      rfl
  | succ fuel ih =>
    cases fuel' with
    | zero =>
      rw [gather, gather, children_of_size_le (by omega)]
      rfl
    | succ fuel' =>
      rw [gather, gather]
      refine gatherAll_congr fun c hc ↦ ?_
      have hlt := h.lt_child hc
      exact ih (by omega) (by omega)

theorem Rooted.gather_eq (h : Rooted V s) (id : Nat) : gather s s.nodes.size id =
    gatherAll s (gather s s.nodes.size) ((s.node id).children.map (·.2)) := by
  have hmore : s.nodes.size ≤ s.nodes.size + 1 + id := by omega
  rw [h.gather_eq_gather (Nat.le_add_right _ _) hmore, gather]

theorem Rooted.blocks_eq (h : Rooted V s) (id : Nat) :
    (blocks s id).1 = ((s.node id).children.map (·.2)).flatMap (blocksAt s) := by
  have hfst (c : Nat) : (blocks s c).1 = (gather s s.nodes.size c).1 := by rw [blocks_eq_gathered, gathered]
  rw [hfst, h.gather_eq, fst_gatherAll]
  simp only [← hfst]
  rfl

/-- One node was made below another. -/
abbrev Under (s : Session) : Nat → Nat → Prop := TransGen fun p c ↦ (s.node c).parent = some p

/-- What is found at a node or below it is found below its parent, so it is found below all nodes above. -/
theorem Rooted.under_iff (h : Rooted V s) {P Q : Nat → Prop}
    (hQ : ∀ id, Q id ↔ ∃ c, (s.node c).parent = some id ∧ (P c ∨ Q c)) : Q id ↔ ∃ c, Under s id c ∧ P c := by
  constructor
  · intro hid
    induction hn : s.nodes.size - id using Nat.strong_induction_on generalizing id with
    | _ n ih =>
      obtain ⟨c, hc, hP | hQc⟩ := (hQ id).1 hid
      · exact ⟨c, .single hc, hP⟩
      · have hlt := (h.grafted hc).1
        have hsize := lt_of_parent hc
        obtain ⟨d, hd, hP⟩ := ih _ (by omega) hQc rfl
        exact ⟨d, .head hc hd, hP⟩
  · rintro ⟨c, hc, hP⟩
    induction hc using TransGen.head_induction_on with
    | single hc => exact (hQ _).2 ⟨c, hc, .inl hP⟩
    | head hc _ ih => exact (hQ _).2 ⟨_, hc, .inr ih⟩

section Unfailing

variable (h : Rooted V s) (hs : s.failure = none)

include h hs

theorem Rooted.mem_children_iff : c ∈ (s.node id).children.map (·.2) ↔ (s.node c).parent = some id := by
  constructor
  · intro hc
    obtain ⟨x, hx, rfl⟩ := List.mem_map.1 hc
    exact (h.child hx).2.1
  · intro hc
    exact List.mem_map.2 ⟨_, (h.grafted hc).2.2.2.2 hs, rfl⟩

theorem Rooted.not_clash : ¬ Clash s := by
  rintro ⟨a, b, p, hne, ha, hb, hname⟩
  have hmema := (h.grafted ha).2.2.2.2 hs
  have hmemb := (h.grafted hb).2.2.2.2 hs
  exact hne (congrArg Prod.snd (List.inj_on_of_nodup_map (h.distinct p) hmema hmemb hname))

theorem Rooted.mem_blocks_iff : b ∈ (blocks s id).1 ↔ Under s id b ∧ IsBlock s b := by
  have hstep (id : Nat) : b ∈ (blocks s id).1 ↔
      ∃ c, (s.node c).parent = some id ∧ ((c = b ∧ IsBlock s c) ∨ b ∈ (blocks s c).1) := by
    rw [h.blocks_eq, List.mem_flatMap]
    refine exists_congr fun c ↦ ?_
    rw [h.mem_children_iff hs, blocksAt, IsBlock]
    refine and_congr_right fun _ ↦ ?_
    split
    · simp [*]
    · rename_i hblock
      have hnone : (s.node c).children.map (·.2) = [] := by
        rw [List.eq_nil_iff_forall_not_mem]
        exact fun d hd ↦ hblock (h.grafted ((h.mem_children_iff hs).1 hd)).2.1
      rw [h.blocks_eq, hnone]
      simp [hblock, eq_comm]
  rw [h.under_iff hstep]
  constructor
  · rintro ⟨c, hc, rfl, hblock⟩
    exact ⟨hc, hblock⟩
  · rintro ⟨hb, hblock⟩
    exact ⟨b, hb, rfl, hblock⟩

theorem Rooted.gather_fails_iff : (gather s s.nodes.size id).2 ≠ [] ↔ ∃ fn, Under s id fn ∧ IsUnended s fn := by
  refine h.under_iff (Q := fun id ↦ (gather s s.nodes.size id).2 ≠ []) fun id ↦ ?_
  rw [h.gather_eq, snd_gatherAll]
  refine exists_congr fun c ↦ ?_
  rw [h.mem_children_iff hs]
  refine and_congr_right fun _ ↦ or_congr_right ⟨And.right, fun hc ↦ ⟨?_, hc⟩⟩
  by_contra hblock
  rw [h.gather_eq, snd_gatherAll] at hc
  obtain ⟨d, hd, -⟩ := hc
  exact hblock (h.grafted ((h.mem_children_iff hs).1 hd)).2.1

theorem Rooted.child?_name (hc : (s.node c).parent = some id) : (s.node id).child? (s.node c).name = some c := by
  obtain ⟨front, back, hsplit⟩ := List.append_of_mem ((h.grafted hc).2.2.2.2 hs)
  have hnodup := h.distinct id
  rw [hsplit, List.map_append, List.map_cons, List.nodup_append] at hnodup
  rw [Node.child?, List.lookup_eq_some_iff]
  refine ⟨front, back, hsplit, fun x hx ↦ ?_⟩
  simpa using (hnodup.2.2 x.1 (List.mem_map_of_mem hx) (s.node c).name List.mem_cons_self).symm

theorem Rooted.follow?_eq (hb : ReflTransGen (fun p c ↦ (s.node c).parent = some p) id b) :
    ∃ rest, (s.node b).path = (s.node id).path ++ rest ∧ follow? s id rest = some b := by
  induction hb using ReflTransGen.head_induction_on with
  | refl => exact ⟨[], (List.append_nil _).symm, by rw [follow?]⟩
  | @head id c hc _ ih =>
    obtain ⟨rest, hpath, hfollow⟩ := ih
    obtain ⟨-, hcontainer, hcpath, -⟩ := h.grafted hc
    refine ⟨(s.node c).name :: rest, by rw [hpath, hcpath, List.append_assoc, List.singleton_append], ?_⟩
    have hget : get? s id (s.node c).name = some c := by rw [get?, List.findSome?_cons, h.child?_name hs hc]
    rw [follow?, if_pos hcontainer, hget]
    exact hfollow

theorem Rooted.lookup?_eq (hb : Under s id b) {rest : List String}
    (hpath : (s.node b).path = (s.node id).path ++ rest) (hrest : ∀ name ∈ rest, '/' ∉ name.toList) :
    lookup? s id (Text.join "/" rest) = some b := by
  obtain ⟨c, hc, hb⟩ := TransGen.head'_iff.1 hb
  obtain ⟨names, hnames, hfollow⟩ := h.follow?_eq hs hb
  have hcpath := (h.grafted hc).2.2.1
  obtain rfl : rest = (s.node c).name :: names := by
    rw [hnames, hcpath, List.append_assoc] at hpath
    exact (List.append_cancel_left hpath).symm
  rw [lookup?, Text.split_join (List.cons_ne_nil _ _) hrest]
  simp only [h.child?_name hs hc, Option.bind_some, hfollow]

end Unfailing

/-- No block is lost or invented. After any calls of factories, listing the blocks below a node fails just if some name
was used twice below one parent, or a function below the node is not ended. Otherwise the blocks made below the node are
listed, with different paths, and each is found by its path. Their order is that in which the children of each node were
made, the blocks of one child before those of the next. -/
theorem blocks_are_enumerated (calls : List Factory) (id : NodeId) :
    let s := calls.foldl perform {}
    ((blocks s id).2 ≠ [] ↔ Clash s ∨ ∃ fn, Under s id fn ∧ IsUnended s fn) ∧
    ((blocks s id).2 = [] →
      (∀ b, b ∈ (blocks s id).1 ↔ Under s id b ∧ IsBlock s b) ∧
      ((blocks s id).1.map fun b ↦ (s.node b).path).Nodup ∧
      ∀ b ∈ (blocks s id).1, ∀ rest, (s.node b).path = (s.node id).path ++ rest →
        (∀ name ∈ rest, '/' ∉ name.toList) → lookup? s id (Text.join "/" rest) = some b) ∧
    (blocks s id).1 = ((s.node id).children.map (·.2)).flatMap (blocksAt s) ∧
    ((s.node id).children.map (·.2)).Pairwise (· < ·) := by
  intro s
  obtain ⟨he, hw⟩ : Kept s := kept_foldl calls kept_start
  have h : Rooted anyWords s := hw.rooted
  have hproblems : (blocks s id).2 = s.failure.toList ++ (gather s s.nodes.size id).2 := by
    rw [blocks_eq_gathered, gathered]
  refine ⟨?_, fun hnone ↦ ?_, h.blocks_eq id, he.rising id⟩
  · cases hs : s.failure with
    | none => rw [hproblems, hs, Option.toList_none, List.nil_append, h.gather_fails_iff hs, or_iff_right (h.not_clash hs)]
    | some p => simp [hproblems, hs, he.clash (by simp [hs])]
  · have hs : s.failure = none := by
      rw [hproblems, List.append_eq_nil_iff] at hnone
      exact Option.toList_eq_nil_iff.1 hnone.1
    refine ⟨fun b ↦ h.mem_blocks_iff hs, (spread_blocksBelow h _ id).nodup, fun b hb rest hpath hrest ↦ ?_⟩
    exact h.lookup?_eq hs ((h.mem_blocks_iff hs).1 hb).1 hpath hrest

end CommandPack.Graph
