import Mathlib
import CommandPack.Proofs.Stateful
import CommandPack.Graph.Control

/-!
How graphs grow. Every step of building a function makes symbols, makes nodes below nodes that are
there, or changes what a node stands for; blocks that are below a root are found from it.
-/

namespace CommandPack.Graph

open Stateful

variable {s s' : Session} {id k parent fn : Nat} {name : String} {role : Role}

def newNode (s : Session) (parent : Nat) (name : String) (role : Role) : Node :=
  { name, parent := some parent, path := (s.node parent).path ++ [name], role }

/-- The graph with a new node below `parent`. It fails if the name is taken. -/
def made (s : Session) (parent : Nat) (name : String) (role : Role) : Session :=
  let pushed := { s with nodes := s.nodes.push (newNode s parent name role) }
  if ((pushed.node parent).child? name).isSome then
    { pushed with failure := s.failure <|> some (.invariant
      s!"{(pushed.node parent).path.joined} already has a child named {Text.quote name}") }
  else { pushed with nodes := pushed.nodes.modify parent fun p ↦
    { p with children := p.children ++ [(name, s.nodes.size)] } }

def recast (s : Session) (id : Nat) (role : Role) : Session :=
  { s with nodes := s.nodes.modify id fun n ↦ { n with role } }

def minted (s : Session) : Session := { s with nextSymbol := s.nextSymbol + 1 }

theorem create_apply (s : Session) (parent : Nat) (name : String) (role : Role) :
    create parent name role s = (.ok s.nodes.size, made s parent name role) := by
  simp only [create, attach, path, node, fail, update, bind_apply, get_apply, andThen_ok, pure_apply,
    modify_apply, made]
  split
  · rw [if_pos ‹_›]
    rfl
  · rw [if_neg ‹_›]
    rfl

theorem node_push {n : Node} (h : s'.nodes = s.nodes.push n) (id : Nat) :
    s'.node id = if id = s.nodes.size then n else s.node id := by
  simp only [Session.node, h, Array.getD_eq_getD_getElem?, Array.getElem?_push]
  split <;> rfl

theorem node_modify {f : Node → Node} (h : s'.nodes = s.nodes.modify k f) (hk : k < s.nodes.size)
    (id : Nat) : s'.node id = if id = k then f (s.node k) else s.node id := by
  simp only [Session.node, h, Array.getD_eq_getD_getElem?, Array.getElem?_modify, eq_comm (a := id)]
  by_cases h : k = id
  · subst h
    simp [hk]
  · simp [h]

def IsBlock (s : Session) (id : Nat) : Prop := (s.node id).isContainer = false

def IsFunction (s : Session) (id : Nat) : Prop := ∃ f, (s.node id).role = .function f

theorem node_of_size_le (hid : s.nodes.size ≤ id) : s.node id = default := by
  rw [Session.node, Array.getD_eq_getD_getElem?, Array.getElem?_eq_none hid]
  rfl

theorem IsBlock.lt (h : IsBlock s id) : id < s.nodes.size := by
  by_contra hid
  rw [IsBlock, node_of_size_le (not_lt.1 hid)] at h
  cases h

theorem IsFunction.lt (h : IsFunction s id) : id < s.nodes.size := by
  by_contra hid
  obtain ⟨f, hf⟩ := h
  rw [node_of_size_le (not_lt.1 hid)] at hf
  cases hf

theorem isBlock_of_role {b : BlockState} (h : (s.node id).role = .block b) : IsBlock s id := by
  rw [IsBlock, Node.isContainer, h]

theorem IsFunction.container (h : IsFunction s id) : (s.node id).isContainer = true := by
  obtain ⟨f, hf⟩ := h
  rw [Node.isContainer, hf]

theorem IsBlock.not_isFunction (h : IsBlock s id) : ¬ IsFunction s id := fun hf ↦ by
  have hcontainer := hf.container
  rw [h] at hcontainer
  cases hcontainer

theorem children_of_size_le (hid : s.nodes.size ≤ id) : (s.node id).children = [] := by
  rw [node_of_size_le hid]
  rfl

theorem node_made (hp : parent < s.nodes.size) (name : String) (role : Role) (id : Nat) :
    (made s parent name role).node id =
      { (if id = s.nodes.size then newNode s parent name role else s.node id) with
        children := if id = parent ∧ (s.node parent).child? name = none then
          (s.node id).children ++ [(name, s.nodes.size)] else (s.node id).children } := by
  let pushed : Session := { s with nodes := s.nodes.push (newNode s parent name role) }
  have hpushed (id : Nat) : pushed.node id = if id = s.nodes.size then newNode s parent name role else s.node id :=
    node_push rfl id
  have hold : { pushed.node id with children := (s.node id).children } = pushed.node id := by
    rw [hpushed]
    split
    · rw [children_of_size_le (ge_of_eq ‹_›)]
      rfl
    · rfl
  have hparent : pushed.node parent = s.node parent := (hpushed parent).trans (if_neg hp.ne)
  rw [← hpushed]
  cases hchild : (s.node parent).child? name with
  | some c =>
    have hmade : (made s parent name role).node id = pushed.node id := by
      rw [made, if_pos (by rw [hparent, hchild]; rfl)]
      rfl
    rw [hmade, if_neg (by simp), hold]
  | none =>
    have hmade : (made s parent name role).node id = if id = parent then
        { pushed.node parent with children := (pushed.node parent).children ++ [(name, s.nodes.size)] }
        else pushed.node id := by
      rw [made, if_neg (by rw [hparent, hchild]; simp)]
      exact node_modify (s := pushed) (f := fun p ↦ { p with children := p.children ++ [(name, s.nodes.size)] }) rfl
        (by simpa [pushed] using Nat.lt_succ_of_lt hp) id
    rw [hmade]
    by_cases hid : id = parent
    · simp [hid, hparent]
    · simp [hid, hold]

section Made

variable (hp : parent < s.nodes.size)

include hp

theorem role_made (id : Nat) : ((made s parent name role).node id).role =
    if id = s.nodes.size then role else (s.node id).role := by
  rw [node_made hp]
  dsimp only
  split <;> rfl

theorem path_made (id : Nat) : ((made s parent name role).node id).path =
    if id = s.nodes.size then (s.node parent).path ++ [name] else (s.node id).path := by
  rw [node_made hp]
  dsimp only
  split <;> rfl

theorem children_made (id : Nat) : ((made s parent name role).node id).children =
    if id = parent ∧ (s.node parent).child? name = none then (s.node id).children ++ [(name, s.nodes.size)]
    else (s.node id).children := by
  rw [node_made hp]

theorem mem_children_made {c : Nat} {name' : String} (hc : (name', c) ∈ ((made s parent name role).node id).children) :
    (name', c) ∈ (s.node id).children ∨ id = parent ∧ name' = name ∧ c = s.nodes.size := by
  rw [children_made hp] at hc
  split at hc
  · rename_i hfree
    exact (List.mem_append.1 hc).imp_right fun hc ↦ ⟨hfree.1, Prod.mk.inj (List.mem_singleton.1 hc)⟩
  · exact .inl hc

theorem parent_name_made (name : String) (role : Role) (id : Nat) : ((made s parent name role).node id).parent =
      (if id = s.nodes.size then some parent else (s.node id).parent) ∧
    ((made s parent name role).node id).name = if id = s.nodes.size then name else (s.node id).name := by
  rw [node_made hp]
  dsimp only
  split <;> exact ⟨rfl, rfl⟩

theorem failure_made (hs : (made s parent name role).failure = none) :
    s.failure = none ∧ (name, s.nodes.size) ∈ ((made s parent name role).node parent).children := by
  rw [children_made hp]
  have hparent : Session.node { s with nodes := s.nodes.push (newNode s parent name role) } parent = s.node parent :=
    (node_push rfl parent).trans (if_neg hp.ne)
  simp only [made, hparent] at hs
  split at hs
  · cases hf : s.failure <;> simp [hf] at hs
  · rename_i hfree
    rw [if_pos ⟨rfl, by simpa using hfree⟩]
    exact ⟨hs, by simp⟩

end Made

@[simp] theorem size_made (s : Session) (parent : Nat) (name : String) (role : Role) :
    (made s parent name role).nodes.size = s.nodes.size + 1 := by
  simp only [made]
  split <;> simp

@[simp] theorem toScratch_made (s : Session) (parent : Nat) (name : String) (role : Role) :
    (made s parent name role).toScratch = s.toScratch := by
  simp only [made]
  split <;> rfl

@[simp] theorem objective_made (s : Session) (parent : Nat) (name : String) (role : Role) :
    (made s parent name role).objective = s.objective := by
  simp only [made]
  split <;> rfl

@[simp] theorem size_recast (s : Session) (k : Nat) (role : Role) :
    (recast s k role).nodes.size = s.nodes.size := by
  simp [recast]

@[simp] theorem toScratch_recast (s : Session) (k : Nat) (role : Role) :
    (recast s k role).toScratch = s.toScratch := rfl

theorem node_recast (hk : k < s.nodes.size) (role : Role) (id : Nat) :
    (recast s k role).node id = { s.node id with role := if id = k then role else (s.node id).role } := by
  refine (node_modify (f := fun n ↦ { n with role }) rfl hk id).trans ?_
  split
  · subst_vars
    rfl
  · rfl

theorem role_recast (hk : k < s.nodes.size) (id : Nat) :
    ((recast s k role).node id).role = if id = k then role else (s.node id).role := by
  rw [node_recast hk]

theorem path_recast (hk : k < s.nodes.size) (id : Nat) :
    ((recast s k role).node id).path = (s.node id).path := by
  rw [node_recast hk]

theorem children_recast (hk : k < s.nodes.size) (id : Nat) :
    ((recast s k role).node id).children = (s.node id).children := by
  rw [node_recast hk]

theorem container_recast (hk : k < s.nodes.size)
    (hrole : (match role with | .block _ => false | _ => true) = (s.node k).isContainer) (id : Nat) :
    ((recast s k role).node id).isContainer = (s.node id).isContainer := by
  rw [Node.isContainer, role_recast hk]
  by_cases hid : id = k
  · rw [if_pos hid, hid]
    exact hrole
  · rw [if_neg hid]
    rfl

@[simp] theorem node_minted (s : Session) (id : Nat) : (minted s).node id = s.node id := rfl

@[simp] theorem size_minted (s : Session) : (minted s).nodes.size = s.nodes.size := rfl

theorem update_apply (f : Node → Role) (k : Nat) (s : Session) :
    update k (fun n ↦ { n with role := f n }) s = (.ok (), recast s k (f (s.node k))) := by
  have hnodes : s.nodes.modify k (fun n ↦ { n with role := f n }) =
      s.nodes.modify k fun n ↦ { n with role := f (s.node k) } := by
    refine Array.ext_getElem? fun i ↦ ?_
    rw [Array.getElem?_modify, Array.getElem?_modify]
    split
    · subst_vars
      cases h : s.nodes[i]? with
      | none => rfl
      | some n => simp [Session.node, Array.getD_eq_getD_getElem?, h]
    · rfl
  simp only [update, modify_apply, hnodes, recast]

@[simp] theorem node_apply (id : Nat) (s : Session) : node id s = (.ok (s.node id), s) := rfl

@[simp] theorem path_apply (id : Nat) (s : Session) : path id s = (.ok (s.node id).path, s) := rfl

@[simp] theorem function_apply (id : Nat) (s : Session) :
    function id s = (.ok (functionOf (s.node id)), s) := rfl

@[simp] theorem updateFunction_apply (id : Nat) (f : FunctionState → FunctionState) (s : Session) :
    updateFunction id f s = (.ok (), recast s id (.function (f (functionOf (s.node id))))) :=
  update_apply (fun n ↦ .function (f (functionOf n))) id s

@[simp] theorem updateBlock_apply (id : Nat) (f : BlockState → BlockState) (s : Session) :
    updateBlock id f s = (.ok (), recast s id (.block (f (blockOf (s.node id))))) :=
  update_apply (fun n ↦ .block (f (blockOf n))) id s

def extended (b : BlockState) (cmds : List Instruction) : BlockState :=
  { b with commands := b.commands ++ cmds }

@[simp] theorem commands_extended (b : BlockState) (cmds : List Instruction) :
    (extended b cmds).commands.toList = b.commands.toList ++ cmds := by
  simp [extended]

@[simp] theorem append_apply (id : Nat) (cmds : List Instruction) (s : Session) :
    append id cmds s = (.ok (), recast s id (.block (extended (blockOf (s.node id)) cmds))) :=
  updateBlock_apply id _ s

@[simp] theorem callOf_apply (id : Nat) (s : Session) :
    callOf id s = (.ok (.call ⟨(s.node id).path, none⟩), s) := rfl

theorem checkOpen_eq_ok {u : Unit} :
    checkOpen fn s = (.ok u, s') ↔ (functionOf (s.node fn)).ended = false ∧ s' = s := by
  simp only [checkOpen, bind_apply, function_apply, andThen_ok]
  cases (functionOf (s.node fn)).ended <;> simp [eq_comm]

theorem checkOpen_of_open (h : (functionOf (s.node fn)).ended = false) : checkOpen fn s = (.ok (), s) :=
  checkOpen_eq_ok.2 ⟨h, rfl⟩

theorem checkOpen_of_ended (h : (functionOf (s.node fn)).ended = true) :
    checkOpen fn s = (.error (.invariant s!"function {(s.node fn).path.joined} was already ended"), s) := by
  simp only [checkOpen, bind_apply, function_apply, andThen_ok, h, if_true, path_apply, throw_apply]

def nextPlayer (s : Session) (owner : Nat) (text : String) : Symbol :=
  ⟨s.nextSymbol, .player, text, some (s.node owner).path, []⟩

@[simp] theorem score_apply (owner : Nat) (player : String) (s : Session) :
    score owner player s = (.ok ⟨.sym (nextPlayer s owner player), s.objective⟩, minted s) := rfl

/-- The instruction that gives a score a constant, or counts it up or down by one. -/
def scoreInstruction (word : String) (v : Score) (n : String) : Instruction :=
  .literal ("scoreboard players " ++ word ++ " %s %s " ++ n) [v.player, v.objective]

theorem move_const {n : Int} {x : Float} (v : Score) (hn : Operand.numberOf? (toString n) = some x)
    (hr : (x < -2147483648 || x > 2147483647) = false) (ht : Decimal.truncToInt64 x = n) :
    Transfer.move (.int n) (.score v) = pure [scoreInstruction "set" v (toString n)] := by
  have hscore : Transfer.constToScore .int (toString n) v = .ok (scoreInstruction "set" v (toString n)) := by
    simp only [Transfer.constToScore, hn, hr, ht]
    simp [scoreInstruction, toString]
  simp only [Transfer.move, Transfer.moveScaled, Operand.int, Operand.isDerived, Transfer.store, Transfer.direct, hscore]
  rfl

@[simp] theorem move_zero (v : Score) : Transfer.move (.int 0) (.score v) = pure [scoreInstruction "set" v "0"] :=
  move_const v (x := 0) rfl (by decide +kernel) (by decide +kernel)

@[simp] theorem move_one (v : Score) : Transfer.move (.int 1) (.score v) = pure [scoreInstruction "set" v "1"] :=
  move_const v (x := 1) rfl (by decide +kernel) (by decide +kernel)

@[simp] theorem addConst_one (v : Score) :
    Transfer.addConst (.score v) .int "1" = pure [scoreInstruction "add" v "1"] := rfl

@[simp] theorem addConst_neg_one (v : Score) :
    Transfer.addConst (.score v) .int "-1" = pure [scoreInstruction "remove" v "1"] := rfl

@[simp] theorem lift_pure {α : Type} (a : α) (s : Session) :
    (liftM (pure a : Synth α) : Build α) s = (.ok a, s) := rfl

def functionMade (s : Session) (parent : Nat) (name entryName : String) (tags : List Path)
    (description : String) : Session :=
  let entry := s.nodes.size + 1
  made (made s parent name (.function { entry, current := entry })) s.nodes.size entryName
    (.block { tags, description })

@[simp] theorem createFunction_apply (s : Session) (parent : Nat) (name entryName : String)
    (tags : List Path) (description : String) :
    createFunction parent name entryName tags description s =
      (.ok s.nodes.size, functionMade s parent name entryName tags description) := by
  simp only [createFunction, createBlock, bind_apply, get_apply, andThen_ok, create_apply, pure_apply,
    functionMade]

section Functions

variable {entryName description : String} {tags : List Path}

@[simp] theorem size_functionMade :
    (functionMade s parent name entryName tags description).nodes.size = s.nodes.size + 2 := by
  simp [functionMade]

theorem role_functionMade (hp : parent < s.nodes.size) (id : Nat) :
    ((functionMade s parent name entryName tags description).node id).role =
      if id = s.nodes.size then .function { entry := s.nodes.size + 1, current := s.nodes.size + 1 }
      else if id = s.nodes.size + 1 then .block { tags, description } else (s.node id).role := by
  simp only [functionMade]
  rw [role_made (by simp), role_made hp, size_made]
  by_cases h : id = s.nodes.size
  · simp [h]
  · simp [h]

theorem path_functionMade (hp : parent < s.nodes.size) (id : Nat) :
    ((functionMade s parent name entryName tags description).node id).path =
      if id = s.nodes.size then (s.node parent).path ++ [name]
      else if id = s.nodes.size + 1 then (s.node parent).path ++ [name, entryName]
      else (s.node id).path := by
  simp only [functionMade]
  rw [path_made (by simp), path_made hp, path_made hp, size_made]
  by_cases h : id = s.nodes.size
  · simp [h]
  · simp [h]

end Functions

def bodyMade (s : Session) (fn : Nat) (name entryName description : String) (reentrant : Bool) :
    Session :=
  recast (functionMade s fn name entryName [] description) s.nodes.size
    (.function { entry := s.nodes.size + 1, current := s.nodes.size + 1, reentrant })

section Bodies

variable {entryName description : String} {reentrant : Bool}

theorem createBody_apply (hfn : fn < s.nodes.size) (label : String) :
    createBody fn name entryName label reentrant s =
      (.ok s.nodes.size, bodyMade s fn name entryName (label ++ (s.node fn).name) reentrant) := by
  simp only [createBody, bind_apply, node_apply, andThen_ok, createFunction_apply, updateFunction_apply,
    pure_apply, functionOf, role_functionMade hfn, if_true, bodyMade]

@[simp] theorem size_bodyMade :
    (bodyMade s fn name entryName description reentrant).nodes.size = s.nodes.size + 2 := by
  simp [bodyMade]

@[simp] theorem toScratch_bodyMade :
    (bodyMade s fn name entryName description reentrant).toScratch = s.toScratch := by
  simp [bodyMade, functionMade]

@[simp] theorem objective_bodyMade :
    (bodyMade s fn name entryName description reentrant).objective = s.objective := by
  simp [bodyMade, functionMade, recast]

theorem role_bodyMade (hfn : fn < s.nodes.size) (id : Nat) :
    ((bodyMade s fn name entryName description reentrant).node id).role =
      if id = s.nodes.size then
        .function { entry := s.nodes.size + 1, current := s.nodes.size + 1, reentrant }
      else if id = s.nodes.size + 1 then .block { description } else (s.node id).role := by
  rw [bodyMade, role_recast (by simp), role_functionMade hfn]
  by_cases h : id = s.nodes.size
  · simp [h]
  · simp [h]

theorem path_bodyMade (hfn : fn < s.nodes.size) (id : Nat) :
    ((bodyMade s fn name entryName description reentrant).node id).path =
      if id = s.nodes.size then (s.node fn).path ++ [name]
      else if id = s.nodes.size + 1 then (s.node fn).path ++ [name, entryName]
      else (s.node id).path := by
  rw [bodyMade, path_recast (by simp), path_functionMade hfn]

end Bodies

/-- A later graph has all that an earlier one has. -/
structure Before (s s' : Session) : Prop where
  size : s.nodes.size ≤ s'.nodes.size
  node {id : Nat} (hid : id < s.nodes.size) : (s'.node id).path = (s.node id).path ∧
    (s'.node id).parent = (s.node id).parent ∧ (s'.node id).name = (s.node id).name
  container {id : Nat} (hid : id < s.nodes.size) : (s'.node id).isContainer = (s.node id).isContainer
  function {id : Nat} (h : IsFunction s id) : IsFunction s' id
  children (id : Nat) : (s.node id).children <+: (s'.node id).children
  failure : s'.failure = none → s.failure = none

namespace Before

variable {s₁ s₂ : Session}

theorem refl (s : Session) : Before s s :=
  ⟨le_rfl, fun _ ↦ ⟨rfl, rfl, rfl⟩, fun _ ↦ rfl, id, fun _ ↦ List.prefix_rfl, id⟩

theorem trans (h : Before s s₁) (h' : Before s₁ s₂) : Before s s₂ where
  size := h.size.trans h'.size
  node hid := by
    obtain ⟨hpath, hparent, hname⟩ := h.node hid
    obtain ⟨hpath', hparent', hname'⟩ := h'.node (hid.trans_le h.size)
    exact ⟨hpath'.trans hpath, hparent'.trans hparent, hname'.trans hname⟩
  container hid := (h'.container (hid.trans_le h.size)).trans (h.container hid)
  function hf := h'.function (h.function hf)
  children id := (h.children id).trans (h'.children id)
  failure hs := h.failure (h'.failure hs)

theorem path (h : Before s s') (hid : id < s.nodes.size) : (s'.node id).path = (s.node id).path := (h.node hid).1

theorem block (h : Before s s') (hid : IsBlock s id) : IsBlock s' id := (h.container hid.lt).trans hid

end Before

theorem before_of_nodes (hnodes : s'.nodes = s.nodes) (hfailure : s'.failure = s.failure) : Before s s' := by
  have hnode (id : Nat) : s'.node id = s.node id := by rw [Session.node, Session.node, hnodes]
  refine ⟨by simp [hnodes], fun {id} _ ↦ ?_, fun {id} _ ↦ ?_, fun {id} hf ↦ ?_, fun id ↦ ?_, fun h ↦ hfailure ▸ h⟩
  · simp [hnode]
  · simp [hnode]
  · rwa [IsFunction, hnode]
  · simp [hnode]

theorem before_made (hp : parent < s.nodes.size) : Before s (made s parent name role) := by
  have hrole {id : Nat} (hid : id < s.nodes.size) : ((made s parent name role).node id).role = (s.node id).role := by
    rw [role_made hp, if_neg hid.ne]
  refine ⟨by simp, fun {id} hid ↦ ?_, fun {id} hid ↦ ?_, fun {id} hf ↦ ?_, fun id ↦ ?_,
    fun hs ↦ (failure_made hp hs).1⟩
  · obtain ⟨hparent, hn⟩ := parent_name_made hp name role id
    rw [path_made hp, hparent, hn]
    simp [(show id ≠ s.nodes.size from hid.ne)]
  · simp only [Node.isContainer, hrole hid]
  · rwa [IsFunction, hrole hf.lt]
  · rw [children_made hp]
    split
    · exact List.prefix_append _ _
    · exact List.prefix_rfl

theorem before_recast (hk : k < s.nodes.size)
    (hcontainer : (match role with | .block _ => false | _ => true) = (s.node k).isContainer)
    (hfunction : IsFunction s k → ∃ f, role = .function f) : Before s (recast s k role) := by
  refine ⟨by simp, fun {id} hid ↦ ?_, fun {id} _ ↦ container_recast hk hcontainer id, fun {id} hf ↦ ?_,
    fun id ↦ (children_recast hk id).symm ▸ List.prefix_rfl, id⟩
  · rw [node_recast hk]
    exact ⟨rfl, rfl, rfl⟩
  · rw [IsFunction, role_recast hk]
    split
    · subst_vars
      exact hfunction hf
    · exact hf

theorem before_fill (hk : IsBlock s k) (b : BlockState) : Before s (recast s k (.block b)) :=
  before_recast hk.lt hk.symm fun hf ↦ absurd hf hk.not_isFunction

theorem before_steer (hk : k < s.nodes.size) (hcontainer : (s.node k).isContainer = true) (f : FunctionState) :
    Before s (recast s k (.function f)) := before_recast hk hcontainer.symm fun _ ↦ ⟨f, rfl⟩

/-- A later graph has all nodes of an earlier one, and symbols and scores go on as before. -/
structure Grows (s s' : Session) : Prop extends Before s s' where
  symbols : s.nextSymbol ≤ s'.nextSymbol
  objective : s'.objective = s.objective

theorem Grows.refl (s : Session) : Grows s s := ⟨.refl s, le_rfl, rfl⟩

theorem Grows.trans {s₁ s₂ s₃ : Session} (h : Grows s₁ s₂) (h' : Grows s₂ s₃) : Grows s₁ s₃ :=
  ⟨h.toBefore.trans h'.toBefore, h.symbols.trans h'.symbols, h'.objective.trans h.objective⟩

theorem grows_made (hp : parent < s.nodes.size) : Grows s (made s parent name role) := ⟨before_made hp, by simp, by simp⟩

/-- Children come after their parents; the nodes from `low` on are below those from `low` on or below
`base`, they have paths, and all names on the way to them have a property. -/
structure Sprouts (P : String → Prop) (base low : Nat) (s : Session) : Prop where
  rising {id c : Nat} {name : String} (hc : (name, c) ∈ (s.node id).children) : id < c ∧ c < s.nodes.size
  grafted {id : Nat} (hlow : low ≤ id) (hid : id < s.nodes.size) :
    ∃ p name, p < id ∧ (low ≤ p ∨ p = base) ∧ (s.node p).isContainer = true ∧
      (s.failure = none → (name, id) ∈ (s.node p).children)
  named {id : Nat} (hlow : low ≤ id ∨ id = base) (hid : id < s.nodes.size) :
    ∀ name ∈ (s.node id).path, P name
  path_ne_nil {id : Nat} (hlow : low ≤ id) (hid : id < s.nodes.size) : (s.node id).path ≠ []

variable {P : String → Prop} {base low : Nat}

theorem Sprouts.made (hs : Sprouts P base low s) (hp : parent < s.nodes.size)
    (hlow : low ≤ parent ∨ parent = base) (hcontainer : (s.node parent).isContainer = true)
    (hname : P name) (role : Role) : Sprouts P base low (made s parent name role) where
  rising {id c name'} hc := by
    rw [size_made]
    rcases mem_children_made hp hc with hold | ⟨rfl, -, rfl⟩
    · exact ⟨(hs.rising hold).1, (hs.rising hold).2.trans (Nat.lt_succ_self _)⟩
    · exact ⟨hp, Nat.lt_succ_self _⟩
  grafted {id} hid hlt := by
    have hbefore : Before s (Graph.made s parent name role) := before_made hp
    rw [size_made] at hlt
    by_cases hnew : id = s.nodes.size
    · subst hnew
      exact ⟨parent, name, hp, hlow, (hbefore.container hp).trans hcontainer,
        fun hf ↦ (failure_made hp hf).2⟩
    · obtain ⟨p, name', hlt', hplow, hpc, hchild⟩ := hs.grafted hid (by omega)
      exact ⟨p, name', hlt', hplow, (hbefore.container (by omega)).trans hpc,
        fun hf ↦ (hbefore.children p).subset (hchild (hbefore.failure hf))⟩
  named {id} hid hlt := by
    rw [size_made] at hlt
    rw [path_made hp]
    split
    · intro name' hname'
      rcases List.mem_append.1 hname' with hold | hnew
      · exact hs.named hlow hp name' hold
      · rw [List.mem_singleton.1 hnew]
        exact hname
    · exact hs.named hid (by omega)
  path_ne_nil {id} hid hlt := by
    rw [size_made] at hlt
    rw [path_made hp]
    split
    · exact List.append_ne_nil_of_right_ne_nil _ (List.cons_ne_nil _ _)
    · exact hs.path_ne_nil hid (by omega)

theorem Sprouts.recast (hs : Sprouts P base low s) (hk : k < s.nodes.size) (hbefore : Before s (recast s k role)) :
    Sprouts P base low (recast s k role) where
  rising {id c name} hc := by
    rw [children_recast hk] at hc
    rw [size_recast]
    exact hs.rising hc
  grafted {id} hid hlt := by
    rw [size_recast] at hlt
    obtain ⟨p, name', hlt', hplow, hpc, hchild⟩ := hs.grafted hid hlt
    exact ⟨p, name', hlt', hplow, (hbefore.container (by omega)).trans hpc,
      fun hf ↦ (hbefore.children p).subset (hchild hf)⟩
  named {id} hid hlt := by
    rw [size_recast] at hlt
    rw [path_recast hk]
    exact hs.named hid hlt
  path_ne_nil {id} hid hlt := by
    rw [size_recast] at hlt
    rw [path_recast hk]
    exact hs.path_ne_nil hid hlt

theorem Sprouts.minted (hs : Sprouts P base low s) : Sprouts P base low (minted s) :=
  ⟨hs.rising, hs.grafted, hs.named, hs.path_ne_nil⟩

def Holds (s : Session) (id c : Nat) : Prop :=
  (s.node id).isContainer = true ∧ ∃ name, (name, c) ∈ (s.node id).children

abbrev Below (s : Session) : Nat → Nat → Prop := Relation.TransGen (Holds s)

theorem mem_blocksOfAll {fuel c b : Nat} {ids : List Nat} (hc : c ∈ ids)
    (hb : if (s.node c).isContainer then b ∈ (blocksBelow s fuel c).1 else b = c) :
    b ∈ (blocksOfAll s fuel ids).1 := by
  induction ids with
  | nil => cases hc
  | cons i ids ih =>
    rw [blocksOfAll]
    rcases List.mem_cons.1 hc with rfl | hc
    · refine List.mem_append_left _ ?_
      rw [Node.isContainer] at hb
      split <;> simp_all
    · exact List.mem_append_right _ (ih hc)

theorem mem_blocksBelow (hrising : ∀ {id c : Nat} {name : String}, (name, c) ∈ (s.node id).children →
      id < c ∧ c < s.nodes.size) {b : Nat} (hbelow : Below s id b)
    (hb : (s.node b).isContainer = false) {fuel : Nat} (hfuel : s.nodes.size ≤ fuel + id) :
    b ∈ (blocksBelow s fuel id).1 := by
  induction hbelow using Relation.TransGen.head_induction_on generalizing fuel with
  | @single id hstep =>
    obtain ⟨-, name, hc⟩ := hstep
    have hlt := hrising hc
    obtain ⟨fuel, rfl⟩ : ∃ fuel', fuel = fuel' + 1 := ⟨fuel - 1, by omega⟩
    rw [blocksBelow]
    exact mem_blocksOfAll (List.mem_map_of_mem hc) (by simp [hb])
  | @head id c hstep hrest ih =>
    obtain ⟨-, name, hc⟩ := hstep
    have hlt := hrising hc
    obtain ⟨fuel, rfl⟩ : ∃ fuel', fuel = fuel' + 1 := ⟨fuel - 1, by omega⟩
    have hcontainer : (s.node c).isContainer = true := by
      obtain ⟨d, hstep', -⟩ := Relation.TransGen.head'_iff.1 hrest
      exact hstep'.1
    rw [blocksBelow]
    refine mem_blocksOfAll (List.mem_map_of_mem hc) ?_
    rw [if_pos hcontainer]
    exact ih (by omega)

theorem Sprouts.below (hs : Sprouts P base low s) (hf : s.failure = none) (hlow : low ≤ id)
    (hid : id < s.nodes.size) : Below s base id := by
  induction id using Nat.strong_induction_on with
  | _ id ih =>
    obtain ⟨p, name, hlt, hp, hcontainer, hchild⟩ := hs.grafted hlow hid
    have hstep : Holds s p id := ⟨hcontainer, name, hchild hf⟩
    rcases hp with hp | rfl
    · exact (ih p hlt hp (hlt.trans hid)).tail hstep
    · exact .single hstep

end CommandPack.Graph
