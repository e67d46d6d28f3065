import Mathlib
import CommandPack.Proofs.Scribing

/-!
Graphs under construction. Whatever builds a graph makes notes, makes nodes below containers that are
there, adds instructions to blocks and says where blocks and functions go on. From these steps it follows
that nothing is lost and that paths and children stay in order.
-/

namespace CommandPack.Graph

open Relation Stateful

/-- A graph under construction, with the symbols made for it. -/
structure Draft where
  graph : Session
  symbols : Set Symbol

def Draft.notes (w : Draft) : Notes := ⟨w.graph.toScratch, w.symbols⟩

variable {V : Vocabulary} {s s' s₁ s₂ : Session} {id k parent fn : Nat} {name : String} {r : Role}

def Callable (s : Session) (p : Path) : Prop := ∃ id, IsBlock s id ∧ (s.node id).path = p

/-- What a node may stand for when it is made by itself. -/
def IsNew : Role → Prop
  | .group | .family .. => True
  | .template is => is = []
  | .function _ => False
  | .block b => b.commands = #[] ∧ b.continuation = none

/-- What happens to a graph in one step. -/
inductive Crafts (V : Vocabulary) (w : Draft) : Draft → Prop
  | note {n : Notes} (h : Scribes V w.notes n) :
      Crafts V w ⟨{ w.graph with toScratch := n.scratch }, n.symbols⟩
  /-- From now on other objectives and temporaries are used. -/
  | adopt {objective tempObjective : Name} {owner : Option Path} (hobjective : Tokened V w.symbols objective)
      (htemp : Named V w.symbols tempObjective) (howner : IsOwner V owner) :
      Crafts V w ⟨{ w.graph with objective, owner, tempObjective, temps := [], marks := [] }, w.symbols⟩
  /-- From now on values are returned elsewhere. -/
  | answer {x : Operand} (hx : Valued V (Callable w.graph) w.symbols x) :
      Crafts V w ⟨{ w.graph with returns := some x }, w.symbols⟩
  | make {parent : Nat} {name : String} {role : Role} (hparent : parent < w.graph.nodes.size)
      (hcontainer : (w.graph.node parent).isContainer = true) (hname : V.child name) (hrole : IsNew role) :
      Crafts V w ⟨made w.graph parent name role, w.symbols⟩
  | makeFunction {parent : Nat} {name entryName description : String} {tags : List Path}
      (hparent : parent < w.graph.nodes.size) (hcontainer : (w.graph.node parent).isContainer = true)
      (hname : V.child name) (hentry : V.child entryName) :
      Crafts V w ⟨functionMade w.graph parent name entryName tags description, w.symbols⟩
  | extend {id : Nat} {cmds : List Instruction} (hid : IsBlock w.graph id)
      (hcmds : AllLawful V (Callable w.graph) cmds w.notes) :
      Crafts V w ⟨recast w.graph id (.block (extended (blockOf (w.graph.node id)) cmds)), w.symbols⟩
  | resume {id : Nat} {k : Option Nat} (hid : IsBlock w.graph id) (hk : ∀ j ∈ k, IsBlock w.graph j) :
      Crafts V w ⟨recast w.graph id (.block { blockOf (w.graph.node id) with continuation := k }), w.symbols⟩
  | describe {id : Nat} {description : String} (hid : IsBlock w.graph id) :
      Crafts V w ⟨recast w.graph id (.block { blockOf (w.graph.node id) with description }), w.symbols⟩
  | steer {fn : Nat} {f : FunctionState} (hfn : IsFunction w.graph fn)
      (hentry : f.entry = (functionOf (w.graph.node fn)).entry) (hcurrent : IsBlock w.graph f.current)
      (hk : ∀ j ∈ f.continuation, IsBlock w.graph j) :
      Crafts V w ⟨recast w.graph fn (.function f), w.symbols⟩
  | record {id : Nat} {is is' : List (String × NodeId)} (hid : (w.graph.node id).role = .template is)
      (his : ∀ x ∈ is', IsFunction w.graph x.2) :
      Crafts V w ⟨recast w.graph id (.template is'), w.symbols⟩

/-- What happens to the nodes of a graph in one step. -/
inductive Alters (V : Vocabulary) (s : Session) : Session → Prop
  | note {s' : Session} (hnodes : s'.nodes = s.nodes) (hfailure : s'.failure = s.failure) : Alters V s s'
  | make {parent : Nat} {name : String} {role : Role} (hparent : parent < s.nodes.size)
      (hcontainer : (s.node parent).isContainer = true) (hname : V.child name) (hrole : IsNew role) :
      Alters V s (made s parent name role)
  | makeFunction {parent : Nat} {name entryName description : String} {tags : List Path}
      (hparent : parent < s.nodes.size) (hcontainer : (s.node parent).isContainer = true)
      (hname : V.child name) (hentry : V.child entryName) :
      Alters V s (functionMade s parent name entryName tags description)
  | fill {id : Nat} {b : BlockState} (hid : IsBlock s id) : Alters V s (recast s id (.block b))
  | steer {fn : Nat} {f : FunctionState} (hfn : IsFunction s fn) (hcurrent : IsBlock s f.current) :
      Alters V s (recast s fn (.function f))
  | record {id : Nat} {is is' : List (String × NodeId)} (hid : (s.node id).role = .template is) :
      Alters V s (recast s id (.template is'))

theorem Crafts.alters {w w' : Draft} (h : Crafts V w w') : Alters V w.graph w'.graph := by
  cases h with
  | note | adopt | answer => exact .note rfl rfl
  | make hparent hcontainer hname hrole => exact .make hparent hcontainer hname hrole
  | makeFunction hparent hcontainer hname hentry => exact .makeFunction hparent hcontainer hname hentry
  | extend hid | resume hid | describe hid => exact .fill hid
  | steer hfn _ hcurrent => exact .steer hfn hcurrent
  | record hid => exact .record hid

def withRoot (s : Session) (name : String) : Session :=
  { s with nodes := s.nodes.push { name, path := [name] } }

@[simp] theorem size_withRoot (s : Session) (name : String) : (withRoot s name).nodes.size = s.nodes.size + 1 := by
  simp [withRoot]

theorem node_withRoot (s : Session) (name : String) (id : Nat) :
    (withRoot s name).node id = if id = s.nodes.size then { name, path := [name] } else s.node id :=
  node_push rfl id

theorem before_withRoot (s : Session) (name : String) : Before s (withRoot s name) := by
  have hnode {id : Nat} (hid : id < s.nodes.size) : (withRoot s name).node id = s.node id :=
    (node_withRoot s name id).trans (if_neg hid.ne)
  refine ⟨by simp, fun {id} hid ↦ ?_, fun {id} hid ↦ ?_, fun {id} hf ↦ ?_, fun id ↦ ?_, id⟩
  · rw [hnode hid]
    exact ⟨rfl, rfl, rfl⟩
  · rw [hnode hid]
  · rwa [IsFunction, hnode hf.lt]
  · by_cases hid : id < s.nodes.size
    · rw [hnode hid]
    · rw [children_of_size_le (not_lt.1 hid)]
      exact List.nil_prefix

theorem before_functionMade {entryName description : String} {tags : List Path} (hparent : parent < s.nodes.size) :
    Before s (functionMade s parent name entryName tags description) :=
  (before_made hparent).trans (before_made (by simp))

theorem lt_of_role {is : List (String × NodeId)} (h : (s.node id).role = .template is) : id < s.nodes.size := by
  by_contra hid
  rw [node_of_size_le (not_lt.1 hid)] at h
  cases h

theorem Alters.before (h : Alters V s s') : Before s s' := by
  cases h with
  | note hnodes hfailure => exact before_of_nodes hnodes hfailure
  | make hparent => exact before_made hparent
  | makeFunction hparent => exact before_functionMade hparent
  | fill hid => exact before_fill hid _
  | steer hfn => exact before_steer hfn.lt hfn.container _
  | record hid =>
    refine before_recast (lt_of_role hid) ?_ ?_
    · rw [Node.isContainer, hid]
    · rintro ⟨f, hf⟩
      rw [hid] at hf
      cases hf

abbrev Altered (V : Vocabulary) : Session → Session → Prop := ReflTransGen (Alters V)

theorem Altered.trans (h : Altered V s s₁) (h' : Altered V s₁ s₂) : Altered V s s₂ := ReflTransGen.trans h h'

theorem Altered.tail (h : Altered V s s₁) (h' : Alters V s₁ s₂) : Altered V s s₂ := ReflTransGen.tail h h'

theorem Altered.before (h : Altered V s s') : Before s s' := by
  induction h with
  | refl => exact .refl s
  | tail _ hstep ih => exact ih.trans hstep.before

/-- Children come after their parents and their paths go on from those of the parents; no two children of a
node have the same name. -/
structure Rooted (V : Vocabulary) (s : Session) : Prop where
  child {id c : Nat} {name : String} (hc : (name, c) ∈ (s.node id).children) :
    c < s.nodes.size ∧ (s.node c).parent = some id ∧ (s.node c).name = name
  distinct (id : Nat) : ((s.node id).children.map (·.1)).Nodup
  root {id : Nat} (hid : id < s.nodes.size) (h : (s.node id).parent = none) :
    (s.node id).path = [(s.node id).name] ∧ V.root (s.node id).name
  grafted {id p : Nat} (h : (s.node id).parent = some p) :
    p < id ∧ (s.node p).isContainer = true ∧ (s.node id).path = (s.node p).path ++ [(s.node id).name] ∧
      V.child (s.node id).name ∧ (s.failure = none → ((s.node id).name, id) ∈ (s.node p).children)

/-- Nodes look the same from outside. -/
structure Alike (m m' : Node) : Prop where
  children : m'.children = m.children
  parent : m'.parent = m.parent
  name : m'.name = m.name
  path : m'.path = m.path
  container : m'.isContainer = m.isContainer

theorem Rooted.of_alike (h : Rooted V s) (hsize : s'.nodes.size = s.nodes.size)
    (hfailure : s'.failure = s.failure) (hnode : ∀ id, Alike (s.node id) (s'.node id)) : Rooted V s' := by
  refine ⟨fun {id c name} hc ↦ ?_, fun id ↦ ?_, fun {id} hid hp ↦ ?_, fun {id p} hp ↦ ?_⟩
  · rw [(hnode id).children] at hc
    rw [(hnode c).parent, (hnode c).name, hsize]
    exact h.child hc
  · rw [(hnode id).children]
    exact h.distinct id
  · rw [(hnode id).parent] at hp
    rw [(hnode id).path, (hnode id).name]
    exact h.root (hsize ▸ hid) hp
  · rw [(hnode id).parent] at hp
    rw [(hnode id).path, (hnode id).name, (hnode p).path, (hnode p).container, (hnode p).children, hfailure]
    exact h.grafted hp

theorem Rooted.of_nodes (h : Rooted V s) (hnodes : s'.nodes = s.nodes) (hfailure : s'.failure = s.failure) :
    Rooted V s' := by
  refine h.of_alike (by rw [hnodes]) hfailure fun id ↦ ?_
  rw [Session.node, Session.node, hnodes]
  exact ⟨rfl, rfl, rfl, rfl, rfl⟩

theorem Rooted.recast (h : Rooted V s) (hk : k < s.nodes.size)
    (hcontainer : (match r with | .block _ => false | _ => true) = (s.node k).isContainer) :
    Rooted V (recast s k r) := by
  refine h.of_alike (size_recast s k r) rfl fun id ↦ ⟨children_recast hk id, ?_, ?_, path_recast hk id,
    container_recast hk hcontainer id⟩
  all_goals rw [node_recast hk]

theorem child?_eq_none {m : Node} (h : m.child? name = none) : name ∉ m.children.map (·.1) := by
  rw [Node.child?, List.lookup_eq_none_iff] at h
  intro hmem
  obtain ⟨x, hx, rfl⟩ := List.mem_map.1 hmem
  simpa using h x hx

theorem lt_of_parent {p : Nat} (hp : (s.node id).parent = some p) :
    id < s.nodes.size := by
  by_contra hid
  rw [node_of_size_le (not_lt.1 hid)] at hp
  cases hp

theorem Rooted.made (h : Rooted V s) (hparent : parent < s.nodes.size)
    (hcontainer : (s.node parent).isContainer = true) (hname : V.child name) (r : Role) :
    Rooted V (made s parent name r) := by
  have hbefore : Before s (Graph.made s parent name r) := before_made hparent
  refine ⟨fun {id c name'} hc ↦ ?_, fun id ↦ ?_, fun {id} hid hp ↦ ?_, fun {id p} hp ↦ ?_⟩
  · rcases mem_children_made hparent hc with hc | ⟨rfl, rfl, rfl⟩
    · obtain ⟨hlt, hp, hn⟩ := h.child hc
      obtain ⟨-, hp', hn'⟩ := hbefore.node hlt
      rw [size_made]
      exact ⟨hlt.trans (Nat.lt_succ_self _), hp'.trans hp, hn'.trans hn⟩
    · obtain ⟨hp, hn⟩ := parent_name_made hparent name' r s.nodes.size
      rw [size_made]
      rw [if_pos rfl] at hp hn
      exact ⟨Nat.lt_succ_self _, hp, hn⟩
  · rw [children_made hparent]
    split
    · rename_i hfree
      obtain ⟨rfl, hfree⟩ := hfree
      rw [List.map_append, List.nodup_append]
      refine ⟨h.distinct id, List.nodup_singleton _, fun a ha b hb hab ↦ ?_⟩
      rw [hab, List.mem_singleton.1 hb] at ha
      exact child?_eq_none hfree ha
    · exact h.distinct id
  · obtain ⟨hp', -⟩ := parent_name_made hparent name r id
    rw [size_made] at hid
    rw [hp'] at hp
    split at hp
    · cases hp
    · have hlt : id < s.nodes.size := by omega
      obtain ⟨hpath, -, hn⟩ := hbefore.node hlt
      exact hpath ▸ hn ▸ h.root hlt hp
  · obtain ⟨hp', hn⟩ := parent_name_made hparent name r id
    rw [hp'] at hp
    split at hp
    · rename_i hnew
      subst hnew
      cases hp
      rw [if_pos rfl] at hn
      refine ⟨hparent, (hbefore.container hparent).trans hcontainer, ?_, hn.symm ▸ hname, fun hs ↦ ?_⟩
      · rw [hn, path_made hparent, if_pos rfl, path_made hparent, if_neg hparent.ne]
      · rw [hn]
        exact (failure_made hparent hs).2
    · rename_i hne
      rw [if_neg hne] at hn
      obtain ⟨hlt, hc, hpath, hchild, hmem⟩ := h.grafted hp
      have hid := lt_of_parent hp
      refine ⟨hlt, (hbefore.container (hlt.trans hid)).trans hc, ?_, hn.symm ▸ hchild, fun hs ↦ ?_⟩
      · exact (hbefore.node hid).1.trans (hpath.trans (by rw [hn, (hbefore.node (hlt.trans hid)).1]))
      · rw [hn]
        exact (hbefore.children p).subset (hmem (hbefore.failure hs))

theorem Rooted.withRoot (h : Rooted V s) (hname : V.root name) : Rooted V (withRoot s name) := by
  refine ⟨fun {id c name'} hc ↦ ?_, fun id ↦ ?_, fun {id} hid hp ↦ ?_, fun {id p} hp ↦ ?_⟩
  · rw [node_withRoot] at hc
    split at hc
    · cases hc
    · obtain ⟨hlt, hp, hn⟩ := h.child hc
      rw [node_withRoot, if_neg hlt.ne]
      exact ⟨hlt.trans (by simp), hp, hn⟩
  · rw [node_withRoot]
    split
    · exact List.nodup_nil
    · exact h.distinct id
  · rw [node_withRoot] at hp ⊢
    split at hp
    · rename_i hnew
      rw [if_pos hnew]
      exact ⟨rfl, hname⟩
    · rename_i hne
      rw [if_neg hne]
      exact h.root (by simp at hid; omega) hp
  · rw [node_withRoot] at hp
    split at hp
    · cases hp
    · rename_i hne
      have hid := lt_of_parent hp
      rw [node_withRoot, node_withRoot, if_neg hne, if_neg (((h.grafted hp).1.trans hid).ne)]
      exact h.grafted hp

theorem Rooted.functionMade (h : Rooted V s) (hparent : parent < s.nodes.size)
    (hcontainer : (s.node parent).isContainer = true) {entryName : String} (hname : V.child name)
    (hentry : V.child entryName) (tags : List Path) (description : String) :
    Rooted V (functionMade s parent name entryName tags description) := by
  refine (h.made hparent hcontainer hname _).made (by simp) ?_ hentry _
  rw [Node.isContainer, role_made hparent, if_pos rfl]

/-- A graph in order: its nodes are a tree, and functions take instructions in blocks that are there. -/
structure Sane (V : Vocabulary) (s : Session) : Prop where
  rooted : Rooted V s
  current {fn : Nat} (h : IsFunction s fn) : IsBlock s (functionOf (s.node fn)).current

theorem Sane.start {s : Session} (hs : s.nodes = #[]) : Sane V s := by
  have hnode (id : Nat) : s.node id = default := node_of_size_le (by simp [hs])
  refine ⟨⟨fun hc ↦ ?_, fun id ↦ ?_, fun hid ↦ ?_, fun h ↦ ?_⟩, ?_⟩
  · rw [hnode] at hc
    nomatch hc
  · rw [hnode]
    exact List.nodup_nil
  · simp [hs] at hid
  · rw [hnode] at h
    nomatch h
  · rintro fn ⟨f, hf⟩
    rw [hnode] at hf
    nomatch hf

/-- A step keeps order if the new functions have their blocks. -/
theorem Sane.of_before (h : Sane V s) (hbefore : Before s s') (hrooted : Rooted V s')
    (hroles : ∀ id, (s'.node id).role = (s.node id).role ∨ (IsFunction s' id → IsBlock s' (functionOf (s'.node id)).current)) :
    Sane V s' := by
  refine ⟨hrooted, fun {fn} hfn ↦ ?_⟩
  rcases hroles fn with hrole | hcurrent
  · rw [functionOf, hrole]
    rw [IsFunction, hrole] at hfn
    exact hbefore.block (h.current hfn)
  · exact hcurrent hfn

theorem Sane.withRoot (h : Sane V s) (hname : V.root name) : Sane V (withRoot s name) := by
  refine h.of_before (before_withRoot s name) (h.rooted.withRoot hname) fun id ↦ ?_
  rw [IsFunction, node_withRoot]
  split
  · refine .inr ?_
    rintro ⟨f, ⟨⟩⟩
  · exact .inl rfl

theorem Sane.recast (h : Sane V s) (hbefore : Before s (recast s k r)) (hk : k < s.nodes.size)
    (hr : ∀ f, r = .function f → IsBlock s f.current) : Sane V (recast s k r) := by
  have hrole : ((Graph.recast s k r).node k).role = r := by rw [role_recast hk, if_pos rfl]
  have hcontainer := hbefore.container hk
  rw [Node.isContainer, hrole] at hcontainer
  refine h.of_before hbefore (h.rooted.recast hk hcontainer) fun id ↦ ?_
  by_cases hid : id = k
  · subst hid
    refine .inr ?_
    rintro ⟨f, hf⟩
    rw [functionOf, hf]
    exact hbefore.block (hr f (hrole.symm.trans hf))
  · exact .inl (by rw [role_recast hk, if_neg hid])

theorem isFunction_functionMade {entryName description : String} {tags : List Path} (hparent : parent < s.nodes.size) :
    IsFunction (functionMade s parent name entryName tags description) s.nodes.size :=
  ⟨_, (role_functionMade hparent _).trans (if_pos rfl)⟩

theorem isBlock_functionMade {entryName description : String} {tags : List Path} (hparent : parent < s.nodes.size) :
    IsBlock (functionMade s parent name entryName tags description) (s.nodes.size + 1) :=
  isBlock_of_role ((role_functionMade hparent _).trans (by rw [if_neg (Nat.succ_ne_self _), if_pos rfl]))

theorem Alters.sane (h : Alters V s s') (hs : Sane V s) : Sane V s' := by
  have hbefore := h.before
  cases h with
  | note hnodes hfailure =>
    refine hs.of_before hbefore (hs.rooted.of_nodes hnodes hfailure) fun id ↦ .inl ?_
    rw [Session.node, Session.node, hnodes]
  | @make parent name role hparent hcontainer hname hrole =>
    refine hs.of_before hbefore (hs.rooted.made hparent hcontainer hname role) fun id ↦ ?_
    rw [IsFunction, role_made hparent]
    split
    · refine .inr ?_
      rintro ⟨f, rfl⟩
      cases hrole
    · exact .inl rfl
  | @makeFunction parent name entryName description tags hparent hcontainer hname hentry =>
    refine hs.of_before hbefore (hs.rooted.functionMade hparent hcontainer hname hentry tags description) fun id ↦ ?_
    rw [IsFunction, functionOf, role_functionMade hparent]
    split
    · exact .inr fun _ ↦ isBlock_functionMade hparent
    · split
      · refine .inr ?_
        rintro ⟨f, ⟨⟩⟩
      · exact .inl rfl
  | fill hid => exact hs.recast hbefore hid.lt (by rintro f ⟨⟩)
  | steer hfn hcurrent =>
    refine hs.recast hbefore hfn.lt ?_
    rintro f ⟨⟩
    exact hcurrent
  | record hid => exact hs.recast hbefore (lt_of_role hid) (by rintro f ⟨⟩)

theorem Altered.sane (h : Altered V s s') (hs : Sane V s) : Sane V s' := by
  induction h with
  | refl => exact hs
  | tail _ hstep ih => exact hstep.sane ih

/-- All nodes that are made have parents. -/
theorem Alters.exists_parent (h : Alters V s s') (hlow : s.nodes.size ≤ id) (hid : id < s'.nodes.size) :
    ∃ p, (s'.node id).parent = some p := by
  cases h with
  | note hnodes => exact absurd (hnodes ▸ hid) (not_lt.2 hlow)
  | fill | steer | record =>
    rw [size_recast] at hid
    exact absurd hid (not_lt.2 hlow)
  | @make parent name role hparent =>
    rw [size_made] at hid
    obtain rfl : id = s.nodes.size := by omega
    exact ⟨parent, (parent_name_made hparent name role _).1.trans (if_pos rfl)⟩
  | @makeFunction parent name entryName description tags hparent =>
    rw [size_functionMade] at hid
    have hlt : s.nodes.size < (made s parent name
        (.function { entry := s.nodes.size + 1, current := s.nodes.size + 1 })).nodes.size := by simp
    have hp := (parent_name_made hlt entryName (.block { tags, description }) id).1
    rw [size_made] at hp
    split at hp
    · exact ⟨_, hp⟩
    · obtain rfl : id = s.nodes.size := by omega
      exact ⟨parent, hp.trans ((parent_name_made hparent name _ _).1.trans (if_pos rfl))⟩

theorem Altered.exists_parent (h : Altered V s s') (hlow : s.nodes.size ≤ id) (hid : id < s'.nodes.size) :
    ∃ p, (s'.node id).parent = some p := by
  induction h with
  | refl => exact absurd hid (not_lt.2 hlow)
  | @tail s₁ s₂ _ hstep ih =>
    by_cases hold : id < s₁.nodes.size
    · obtain ⟨p, hp⟩ := ih hold
      exact ⟨p, (hstep.before.node hold).2.1.trans hp⟩
    · exact hstep.exists_parent (not_lt.1 hold) hid

end CommandPack.Graph
