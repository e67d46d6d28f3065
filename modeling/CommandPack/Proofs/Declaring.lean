import Mathlib
import CommandPack.Proofs.Dictionary
import CommandPack.Proofs.Labelling

/-!
The declarations of programs. Classes and functions get nodes below the root of the program, methods below their
classes, and none of them gets a name that is taken.
-/

namespace CommandPack.Compile

open Stateful CommandPack.Graph

variable {sc : Scope} {s s₁ s₂ : Session} {parent cls : Nat} {F F₁ F₂ : Set Nat} {α : Type}
  {J : Set Nat → Session → Prop} {P : FunctionDecl → Prop} {C : String → Prop}

/-- A property that is kept by the declarations of some functions and classes, too. -/
structure Admits (J : Set Nat → Session → Prop) (P : FunctionDecl → Prop) (C : String → Prop) : Prop extends
    Invariant J where
  function {F : Set Nat} {s : Session} {parent : Nat} {decl : FunctionDecl} (h : J F s) (hp : parent < s.nodes.size)
    (hcontainer : (s.node parent).isContainer = true) (hdecl : P decl) (hname : decl.name ∉ names s parent)
    (tags : List Path) : J (insert s.nodes.size F) (functionMade s parent decl.name decl.name tags decl.description)
  family {F : Set Nat} {s : Session} {parent : Nat} {name : String} (h : J F s) (hp : parent < s.nodes.size)
    (hcontainer : (s.node parent).isContainer = true) (hnot : parent ∉ F) (hC : C name) (hname : name ∉ names s parent)
    (parents all : List NodeId) : J F (made s parent name (.family parents all))

/-- Only `p` and new nodes got children, and only new nodes became functions. -/
structure Adjoins (p : Nat) (F : Set Nat) (s : Session) (F' : Set Nat) (s' : Session) : Prop where
  before : Before s s'
  children {id : Nat} (hid : id < s.nodes.size) (hne : id ≠ p) : (s'.node id).children = (s.node id).children
  functions {id : Nat} (h : id ∈ F') : id ∈ F ∨ s.nodes.size ≤ id

theorem adjoins_of_nodes {p : Nat} (h : s₁.nodes = s.nodes ∧ s₁.failure = s.failure) : Adjoins p F s F s₁ :=
  ⟨before_of_nodes h.1 h.2, fun _ _ ↦ by rw [Session.node, Session.node, h.1], .inl⟩

theorem Adjoins.trans {p q : Nat} (h : Adjoins p F s F₁ s₁) (h' : Adjoins q F₁ s₁ F₂ s₂)
    (hq : q = p ∨ s.nodes.size ≤ q) : Adjoins p F s F₂ s₂ where
  before := h.before.trans h'.before
  children {id} hid hne := by
    have hne' : id ≠ q := by
      rintro rfl
      exact hq.elim hne hid.not_ge
    rw [h'.children (hid.trans_le h.before.size) hne', h.children hid hne]
  functions hid := (h'.functions hid).elim h.functions fun hle ↦ .inr (h.before.size.trans hle)

/-- Computations that build on no function leave the nodes as they are. -/
theorem upholds_of_calm (hJ : Invariant J) {x : Build α} (hx : Calm ∅ x) (h : J F s) :
    Upholds J x F s fun _ F' s' ↦ F' = F ∧ s'.nodes = s.nodes ∧ s'.failure = s.failure :=
  ⟨F, le_rfl, hx hJ (Set.empty_subset F) h, fun _ _ ↦ ⟨rfl, hx.nodes_eq s⟩⟩

theorem upholds_failAt_bind {β : Type} {R : β → Set Nat → Session → Prop} (h : J F s) (pos : Position) (p : Problem)
    (f : α → Build β) : Upholds J (failAt sc pos p >>= f) F s R := ⟨F, le_rfl, h, fun _ ha ↦ nomatch ha⟩

theorem calm_tagsOf (ts : List String) : Calm F (tagsOf sc ts) := by
  induction ts with
  | nil => exact .pure _
  | cons t ts ih =>
    refine .bind ?_ fun _ ↦ .bind ih fun _ ↦ .pure _
    unfold tagOf
    split
    · exact .pure _
    · exact .bind (calm_path _) fun _ ↦ .pure _

theorem calm_parentsOf (decl : ClassDecl) (inherited : List String) : Calm F (parentsOf sc decl inherited) := by
  induction inherited with
  | nil => exact .pure _
  | cons name inherited ih =>
    have hrest (r : NodeId × List (Dict DataType)) : Calm F (do
        let rest ← parentsOf sc decl inherited
        return (r.1 :: rest.1, r.2 ++ rest.2)) := .bind ih fun _ ↦ .pure _
    simp only [parentsOf]
    split
    · split
      · exact .bind (calm_failAt sc _ _) hrest
      · exact hrest _
    · split
      · exact hrest _
      · exact .bind (calm_failAt sc _ _) hrest

theorem calm_membersOf (decl : ClassDecl) (ms : Dict String) : Calm F (membersOf sc decl ms) := by
  induction ms with
  | nil => exact .pure _
  | cons m ms ih =>
    simp only [membersOf]
    split
    · exact calm_failAt sc _ _
    · exact .bind ih fun _ ↦ .pure _

theorem calm_scoreVariable (decl : VarDecl) : Calm F (scoreVariable sc decl) := by
  refine .bind .get fun _ ↦ .bind (calm_scoreIn _ _ _) fun _ ↦ ?_
  split
  · exact .pure _
  · split
    · exact .pure _
    · exact calm_failAt sc _ _

theorem calm_slotVariable (decl : VarDecl) : Calm F (slotVariable sc decl) := by
  unfold slotVariable
  split
  · exact calm_failAt sc _ _
  · exact calm_failAt sc _ _
  · exact .pure _

/-- The names below the root are those of classes and functions, and what is below a class is a function. -/
structure Housed (F : Set Nat) (s : Session) (sc : Scope) : Prop where
  root_lt : sc.root < s.nodes.size
  root_container : (s.node sc.root).isContainer = true
  orphan : (s.node sc.root).parent = none
  root_notMem : sc.root ∉ F
  taken {name : String} (h : name ∈ names s sc.root) : sc.classes.has name = true ∨ sc.functions.has name = true
  classes {name : String} {c : Family} (h : sc.classes.find? name = some c) :
    c.node < s.nodes.size ∧ c.node ≠ sc.root ∧ ∀ x ∈ (s.node c.node).children, x.2 ∈ F
  functions {name : String} {id : Nat} (h : sc.functions.find? name = some id) : id ∈ F

/-- What is below the root in a later graph, if the names there are those of a later scope. -/
theorem Housed.adjoins (hsc : Housed F s sc) (hF : F ⊆ F₁) (hs : Adjoins sc.root F s F₁ s₁) {sc' : Scope}
    (hroot : sc'.root = sc.root)
    (htaken : ∀ name ∈ names s₁ sc.root, sc'.classes.has name = true ∨ sc'.functions.has name = true)
    (hclasses : ∀ name c, sc'.classes.find? name = some c → sc.classes.find? name = some c ∨
      (c.node < s₁.nodes.size ∧ c.node ≠ sc.root ∧ ∀ x ∈ (s₁.node c.node).children, x.2 ∈ F₁))
    (hfunctions : ∀ name id, sc'.functions.find? name = some id → sc.functions.find? name = some id ∨ id ∈ F₁) :
    Housed F₁ s₁ sc' where
  root_lt := hroot ▸ hsc.root_lt.trans_le hs.before.size
  root_container := hroot ▸ (hs.before.container hsc.root_lt).trans hsc.root_container
  orphan := hroot ▸ (hs.before.node hsc.root_lt).2.1.trans hsc.orphan
  root_notMem := hroot ▸ fun h ↦ (hs.functions h).elim hsc.root_notMem hsc.root_lt.not_ge
  taken h := htaken _ (hroot ▸ h)
  classes {name c} hc := by
    rw [hroot]
    rcases hclasses name c hc with hold | hnew
    · obtain ⟨hlt, hne, hmethods⟩ := hsc.classes hold
      rw [hs.children hlt hne]
      exact ⟨hlt.trans_le hs.before.size, hne, fun x hx ↦ hF (hmethods x hx)⟩
    · exact hnew
  functions {name id} hid := (hfunctions name id hid).elim (fun h ↦ hF (hsc.functions h)) fun h ↦ h

theorem Housed.of_nodes (hsc : Housed F s sc) (h : s₁.nodes = s.nodes ∧ s₁.failure = s.failure) {sc' : Scope}
    (hroot : sc'.root = sc.root) (hclasses : sc'.classes = sc.classes) (hfunctions : sc'.functions = sc.functions) :
    Housed F s₁ sc' := by
  refine hsc.adjoins le_rfl (adjoins_of_nodes h) hroot (fun name hname ↦ ?_) (fun _ _ hc ↦ .inl (hclasses ▸ hc))
    fun _ _ hid ↦ .inl (hfunctions ▸ hid)
  rw [names, Session.node, h.1] at hname
  rw [hclasses, hfunctions]
  exact hsc.taken hname

theorem has_insert {d : Dict α} {k k' : String} {a : α} : (d.insert k a).has k' = true ↔ k = k' ∨ d.has k' = true := by
  rw [Dict.has, Dict.find?_insert]
  split <;> simp_all [Dict.has]

section Declarations

variable (hJ : Admits J P C)

include hJ

theorem upholds_declareFunction (h : J F s) (hp : parent < s.nodes.size)
    (hcontainer : (s.node parent).isContainer = true) {decl : FunctionDecl} (hdecl : P decl)
    (hname : decl.name ∉ names s parent) :
    Upholds J (declareFunction sc parent decl) F s fun id F' s' ↦ id ∈ F' ∧ Adjoins parent F s F' s' ∧
      (s'.node parent).children = (s.node parent).children ++ [(decl.name, id)] := by
  refine .bind (upholds_of_calm hJ.toInvariant (calm_tagsOf decl.tags) h) ?_
  rintro tags _ s₁ - h₁ ⟨rfl, hnodes⟩
  have hnode (id : Nat) : s₁.node id = s.node id := by rw [Session.node, Session.node, hnodes.1]
  rw [← hnodes.1] at hp
  rw [← hnode] at hcontainer
  have hfree : decl.name ∉ names s₁ parent := by rwa [names, hnode]
  have hchildren (id : Nat) (hid : id < s₁.nodes.size) :
      ((functionMade s₁ parent decl.name decl.name tags decl.description).node id).children =
        if id = parent then (s₁.node id).children ++ [(decl.name, s₁.nodes.size)] else (s₁.node id).children := by
    rw [functionMade, children_made (by simp), if_neg fun h ↦ hid.ne h.1, children_made_of_notMem hp hfree]
  refine .of_eq_ok (createFunction_apply ..) (Set.subset_insert _ _) (hJ.function h₁ hp hcontainer hdecl hfree tags)
    ⟨Set.mem_insert _ _, (adjoins_of_nodes hnodes).trans ⟨before_functionMade hp, fun hid hne ↦ ?_, ?_⟩ (.inl rfl), ?_⟩
  · rw [hchildren _ hid, if_neg hne]
  · rintro id (rfl | hid)
    · exact .inr le_rfl
    · exact .inl hid
  · rw [hchildren _ hp, if_pos rfl, hnode]

theorem upholds_declareMethods (decl : ClassDecl) (h : J F s) (hcls : cls < s.nodes.size)
    (hcontainer : (s.node cls).isContainer = true)
    (hmethods : ∀ x ∈ (s.node cls).children, x.2 ∈ F) {seen : List String} (hseen : names s cls ⊆ seen)
    {fns : List FunctionDecl} (hfns : ∀ f ∈ fns, P f) :
    Upholds J (declareMethods sc decl cls seen fns) F s fun _ F' s' ↦ Adjoins cls F s F' s' ∧
      ∀ x ∈ (s'.node cls).children, x.2 ∈ F' := by
  induction fns generalizing s F seen with
  | nil => exact .pure h ⟨adjoins_of_nodes ⟨rfl, rfl⟩, hmethods⟩
  | cons f fns ih =>
    rw [List.forall_mem_cons] at hfns
    simp only [declareMethods]
    split
    · exact upholds_failAt_bind h _ _ _
    · rename_i hnew
      replace hnew : f.name ∉ seen := by simpa using hnew
      refine .bind (upholds_declareFunction hJ h hcls hcontainer hfns.1 fun hmem ↦ hnew (hseen hmem)) ?_
      rintro id F₁ s₁ hF h₁ ⟨hid, hadjoins, hchildren⟩
      have hmethods₁ : ∀ x ∈ (s₁.node cls).children, x.2 ∈ F₁ := by
        rw [hchildren, List.forall_mem_append, List.forall_mem_singleton]
        exact ⟨fun x hx ↦ hF (hmethods x hx), hid⟩
      have hseen₁ : names s₁ cls ⊆ f.name :: seen := by
        rw [names, hchildren, List.map_append]
        exact List.append_subset.2 ⟨List.subset_cons_of_subset _ hseen, by simp⟩
      have hcontainer₁ := (hadjoins.before.container hcls).trans hcontainer
      refine (ih h₁ (hcls.trans_le hadjoins.before.size) hcontainer₁ hmethods₁ hseen₁ hfns.2).mono ?_
      rintro _ F₂ s₂ ⟨hadjoins₂, hmethods₂⟩
      exact ⟨hadjoins.trans hadjoins₂ (.inl rfl), hmethods₂⟩

theorem upholds_createClass (h : J F s) (hp : parent < s.nodes.size) (hcontainer : (s.node parent).isContainer = true)
    (hnot : parent ∉ F) {name : String} (hC : C name) (hname : name ∉ names s parent) (parents : List NodeId) :
    Upholds J (Graph.createClass parent name parents) F s fun id F' s' ↦ F' = F ∧ id = s.nodes.size ∧
      (∃ all, s' = made s parent name (.family parents all)) ∧ ∀ k, (s'.node k).children =
        if k = parent then (s.node k).children ++ [(name, s.nodes.size)] else (s.node k).children := by
  let all := (parents.flatMap fun p ↦ p :: ancestors (s.node p)).eraseDups
  have hrun : Graph.createClass parent name parents s = (.ok s.nodes.size, made s parent name (.family parents all)) := by
    simp only [Graph.createClass, bind_apply, get_apply, andThen_ok, create_apply, all]
  exact .of_eq_ok hrun le_rfl (hJ.family h hp hcontainer hnot hC hname parents all)
    ⟨rfl, rfl, ⟨all, rfl⟩, children_made_of_notMem hp hname _⟩

theorem upholds_declareClass (h : J F s) (hsc : Housed F s sc) (hfunctions : sc.functions = []) {decl : ClassDecl}
    (hC : C decl.name) (hdecl : ∀ f ∈ decl.functions, P f) :
    Upholds J (declareClass sc decl) F s fun sc' F' s' ↦ Housed F' s' sc' ∧ sc'.functions = [] := by
  unfold declareClass
  split
  · exact upholds_failAt_bind h _ _ _
  rename_i hnew
  refine .bind (upholds_of_calm hJ.toInvariant (calm_parentsOf decl _) h) ?_
  rintro ⟨parents, lineage⟩ _ s₁ - h₁ ⟨rfl, hs₁⟩
  refine .bind (upholds_of_calm hJ.toInvariant (calm_membersOf decl _) h₁) ?_
  rintro members _ s₂ - h₂ ⟨rfl, hs₂⟩
  replace hsc := (hsc.of_nodes hs₁ rfl rfl rfl).of_nodes hs₂ rfl rfl rfl
  have hfree : decl.name ∉ names s₂ sc.root := fun hmem ↦
    (hsc.taken hmem).elim hnew (by simp [hfunctions, Dict.has, Dict.find?])
  refine .bind (upholds_createClass hJ h₂ hsc.root_lt hsc.root_container hsc.root_notMem hC hfree parents) ?_
  rintro _ F₃ s₃ - h₃ ⟨rfl, rfl, ⟨all, rfl⟩, hchildren⟩
  set s₃ := made s₂ sc.root decl.name (.family parents all)
  have hlt : s₂.nodes.size < s₃.nodes.size := by simp [s₃]
  have hcontainer : (s₃.node s₂.nodes.size).isContainer = true := by
    rw [Node.isContainer, role_made hsc.root_lt, if_pos rfl]
  have hempty : (s₃.node s₂.nodes.size).children = [] := by
    rw [hchildren, if_neg hsc.root_lt.ne', children_of_size_le le_rfl]
  refine .bind (upholds_declareMethods hJ decl h₃ hlt hcontainer (by simp [hempty]) (by simp [names, hempty]) hdecl) ?_
  rintro _ F₄ s₄ hF h₄ ⟨hadjoins₄, hmethods⟩
  have hadjoins : Adjoins sc.root F₃ s₂ F₄ s₄ := by
    refine Adjoins.trans ⟨before_made hsc.root_lt, fun hid hne ↦ ?_, .inl⟩ hadjoins₄ (.inr le_rfl)
    rw [hchildren, if_neg hne]
  refine .pure h₄ ⟨hsc.adjoins hF hadjoins rfl (fun name hname ↦ .inl (has_insert.2 ?_)) (fun name c hc ↦ ?_)
    fun _ _ hid ↦ .inl hid, hfunctions⟩
  · rw [names, hadjoins₄.children (hsc.root_lt.trans hlt) hsc.root_lt.ne, hchildren, if_pos rfl, List.map_append] at hname
    rcases List.mem_append.1 hname with hname | hname
    · exact .inr ((hsc.taken hname).resolve_right (by simp [hfunctions, Dict.has, Dict.find?]))
    · exact .inl (List.mem_singleton.1 hname).symm
  · rw [Dict.find?_insert] at hc
    split at hc
    · cases hc
      exact .inr ⟨hlt.trans_le hadjoins₄.before.size, hsc.root_lt.ne', hmethods⟩
    · exact .inl hc

theorem upholds_declareClasses (h : J F s) (hsc : Housed F s sc) (hfunctions : sc.functions = [])
    {decls : List ClassDecl} (hdecls : ∀ d ∈ decls, C d.name ∧ ∀ f ∈ d.functions, P f) :
    Upholds J (declareClasses sc decls) F s fun sc' F' s' ↦ Housed F' s' sc' := by
  induction decls generalizing s F sc with
  | nil => exact .pure h hsc
  | cons d ds ih =>
    rw [List.forall_mem_cons] at hdecls
    refine .bind (upholds_declareClass hJ h hsc hfunctions hdecls.1.1 hdecls.1.2) ?_
    rintro sc₁ F₁ s₁ - h₁ ⟨hsc₁, hfunctions₁⟩
    exact ih h₁ hsc₁ hfunctions₁ hdecls.2

theorem upholds_declareVars (h : J F s) (hsc : Housed F s sc) (decls : List VarDecl) :
    Upholds J (declareVars sc decls) F s fun sc' F' s' ↦ Housed F' s' sc' := by
  induction decls generalizing s F sc with
  | nil => exact .pure h hsc
  | cons d ds ih =>
    have hvar {x : Build Variable} (hx : Calm ∅ x) : Upholds J (do
        let v ← x
        return { sc with vars := sc.vars.insert d.name v }) F s fun sc' F' s' ↦ Housed F' s' sc' := by
      refine .bind (upholds_of_calm hJ.toInvariant hx h) ?_
      rintro v _ s₁ - h₁ ⟨rfl, hnodes⟩
      exact .pure h₁ (hsc.of_nodes hnodes rfl rfl rfl)
    have hdeclare : Upholds J (declareVar sc d) F s fun sc' F' s' ↦ Housed F' s' sc' := by
      unfold declareVar
      by_cases hreserved : reservedNames.contains d.name
      · rw [if_pos hreserved]
        exact upholds_failAt_bind h _ _ _
      · rw [if_neg hreserved]
        split
        · exact hvar (calm_scoreVariable d)
        · exact hvar (calm_slotVariable d)
    exact .bind hdeclare fun sc₁ F₁ s₁ _ h₁ hsc₁ ↦ ih h₁ hsc₁

theorem upholds_declareFunctions (h : J F s) (hsc : Housed F s sc) {decls : List FunctionDecl}
    (hdecls : ∀ d ∈ decls, P d) :
    Upholds J (declareFunctions sc decls) F s fun sc' F' s' ↦ Housed F' s' sc' := by
  induction decls generalizing s F sc with
  | nil => exact .pure h hsc
  | cons d ds ih =>
    rw [List.forall_mem_cons] at hdecls
    simp only [declareFunctions]
    split
    · exact upholds_failAt_bind h _ _ _
    rename_i hnew
    split
    · exact upholds_failAt_bind h _ _ _
    rename_i hclass
    have hfree : d.name ∉ names s sc.root := fun hmem ↦ (hsc.taken hmem).elim hclass hnew
    refine .bind (upholds_declareFunction hJ h hsc.root_lt hsc.root_container hdecls.1 hfree) ?_
    rintro id F₁ s₁ hF h₁ ⟨hid, hadjoins, hchildren⟩
    refine ih h₁ (hsc.adjoins hF hadjoins rfl (fun name hname ↦ ?_) (fun _ _ hc ↦ .inl hc) fun name id' hid' ↦ ?_) hdecls.2
    · rw [names, hchildren, List.map_append] at hname
      rcases List.mem_append.1 hname with hname | hname
      · exact (hsc.taken hname).imp_right fun h ↦ has_insert.2 (.inr h)
      · exact .inr (has_insert.2 (.inl (List.mem_singleton.1 hname).symm))
    · rw [Dict.find?_insert] at hid'
      split at hid'
      · cases hid'
        exact .inr hid
      · exact .inl hid'

def allFunctions (p : Program) : List FunctionDecl := p.functions ++ p.classes.flatMap (·.functions)

/-- Declaring keeps a property if it holds before and with the new root. -/
theorem upholds_declare (lib : Option Library) (filename : String) {p : Program} (h : J ∅ s)
    (hroot : p.root.toList.all isRootChar = true → J ∅ (withRoot s p.root)) (hclasses : ∀ d ∈ p.classes, C d.name)
    (hp : ∀ f ∈ allFunctions p, P f) :
    Upholds J (declare { lib, filename } p) ∅ s fun sc F s' ↦ Housed F s' sc := by
  rw [allFunctions, List.forall_mem_append] at hp
  unfold declare
  dsimp only
  split
  · exact upholds_failAt_bind h _ _ _
  rename_i hname
  split
  · exact upholds_failAt_bind h _ _ _
  have hmade : Upholds J (Graph.root p.root) ∅ s fun id F s' ↦ F = ∅ ∧ id = s.nodes.size ∧ s' = withRoot s p.root :=
    .of_eq_ok rfl le_rfl (hroot (by simpa using (not_or.1 hname).2)) ⟨rfl, rfl, rfl⟩
  refine .bind hmade ?_
  rintro _ _ _ - h₁ ⟨rfl, rfl, rfl⟩
  have hnode : (withRoot s p.root).node s.nodes.size = { name := p.root, path := [p.root] } := by simp [node_withRoot]
  have hsc : Housed ∅ (withRoot s p.root) { lib, filename, root := s.nodes.size } := by
    refine ⟨by simp, by rw [hnode]; rfl, by rw [hnode], nofun, fun hname ↦ ?_, nofun, nofun⟩
    rw [names, hnode] at hname
    cases hname
  refine .bind (upholds_declareClasses hJ h₁ hsc rfl fun d hd ↦
    ⟨hclasses d hd, fun f hf ↦ hp.2 f (List.mem_flatMap.2 ⟨d, hd, hf⟩)⟩) ?_
  intro sc₁ F₁ s₁ _ h₁ hsc₁
  refine .bind (upholds_declareVars hJ h₁ hsc₁ p.vars) fun sc₂ F₂ s₂ _ h₂ hsc₂ ↦ ?_
  exact upholds_declareFunctions hJ h₂ hsc₂ hp.1

end Declarations

theorem Housed.mem_of_mem_jobs (hsc : Housed F s sc) {p : Program} {job : FunctionDecl × NodeId × Option Family}
    (hjob : job ∈ jobs s sc p) : job.2.1 ∈ F := by
  rcases List.mem_append.1 hjob with hjob | hjob
  · obtain ⟨f, -, hjob⟩ := List.mem_filterMap.1 hjob
    obtain ⟨id, hid, rfl⟩ := Option.map_eq_some_iff.1 hjob
    exact hsc.functions hid
  · obtain ⟨d, -, hjob⟩ := List.mem_flatMap.1 hjob
    split at hjob
    · cases hjob
    · rename_i c hc
      obtain ⟨f, -, hjob⟩ := List.mem_filterMap.1 hjob
      obtain ⟨id, hid, rfl⟩ := Option.map_eq_some_iff.1 hjob
      exact (hsc.classes hc).2.2 _ (mem_of_lookup hid)

end CommandPack.Compile
