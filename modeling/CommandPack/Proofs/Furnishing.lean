import Mathlib
import CommandPack.Proofs.Objects
import CommandPack.Proofs.Minting
import CommandPack.Proofs.Flow

/-!
The functions about objects in graphs that the library was put into.
-/

namespace CommandPack.Graph

open Stateful

variable {f : FunctionState} {α : Type} {s s' s₁ : Session} {id k parent fn N : Nat} {name description : String}
  {cmds cs : List Instruction} {role : Role} {tags : List Path} {V : Vocabulary} {M : Set Symbol}

/-- From one graph to a later one, all nodes below `N` stand for the same, at the same paths, and scores and results
go to the same places. -/
structure Spares (N : Nat) (s s' : Session) : Prop where
  size : s.nodes.size ≤ s'.nodes.size
  path {id : Nat} (hid : id < N) : (s'.node id).path = (s.node id).path
  role {id : Nat} (hid : id < N) : (s'.node id).role = (s.node id).role
  objective : s'.objective = s.objective
  returns : s'.returns = s.returns

namespace Spares

theorem trans (h : Spares N s s₁) (h' : Spares N s₁ s') : Spares N s s' :=
  ⟨h.size.trans h'.size, fun hid ↦ (h'.path hid).trans (h.path hid), fun hid ↦ (h'.role hid).trans (h.role hid),
    h'.objective.trans h.objective, h'.returns.trans h.returns⟩

theorem mono {N' : Nat} (h : Spares N' s s') (hN : N ≤ N') : Spares N s s' :=
  ⟨h.size, fun hid ↦ h.path (hid.trans_le hN), fun hid ↦ h.role (hid.trans_le hN), h.objective, h.returns⟩

theorem next (h : Spares s.nodes.size s s₁) (h' : Spares s₁.nodes.size s₁ s') : Spares s.nodes.size s s' :=
  h.trans (h'.mono h.size)

theorem reads {next : Option Nat} (h : Spares N s s') (hid : id < N) (hreads : Reads s id cmds next) :
    Reads s' id cmds next :=
  ⟨hreads.lt.trans_le h.size, by rw [h.role hid]; exact hreads.block⟩

end Spares

theorem returns_made (s : Session) (parent : Nat) (name : String) (role : Role) :
    (made s parent name role).returns = s.returns := by
  rw [made]
  dsimp only
  split <;> rfl

theorem spares_minted (N : Nat) (s : Session) : Spares N s (minted s) := ⟨le_rfl, fun _ ↦ rfl, fun _ ↦ rfl, rfl, rfl⟩

theorem spares_made (hN : N ≤ s.nodes.size) (hp : parent < s.nodes.size) (name : String) (role : Role) :
    Spares N s (made s parent name role) :=
  ⟨by simp, fun hid ↦ by rw [path_made hp, if_neg (hid.trans_le hN).ne],
    fun hid ↦ by rw [role_made hp, if_neg (hid.trans_le hN).ne], objective_made .., returns_made ..⟩

theorem spares_recast (hk : k < s.nodes.size) (hN : N ≤ k) (role : Role) : Spares N s (recast s k role) :=
  ⟨by simp, fun _ ↦ path_recast hk _, fun hid ↦ by rw [role_recast hk, if_neg (hid.trans_le hN).ne], rfl, rfl⟩

theorem spares_functionMade (hN : N ≤ s.nodes.size) (hp : parent < s.nodes.size) (name entryName : String)
    (tags : List Path) (description : String) : Spares N s (functionMade s parent name entryName tags description) :=
  (spares_made hN hp name _).trans (spares_made (by simp; omega) (by simp) entryName _)

theorem recast_self (s : Session) (id : Nat) : recast s id (s.node id).role = s := by
  have hnodes : (s.nodes.modify id fun n ↦ { n with role := (s.node id).role }) = s.nodes := by
    refine Array.ext_getElem? fun i ↦ ?_
    rw [Array.getElem?_modify]
    split
    · subst_vars
      cases h : s.nodes[i]? with
      | none => rfl
      | some n => simp [Session.node, Array.getD_eq_getD_getElem?, h]
    · rfl
  rw [recast, hnodes]

theorem recast_recast (s : Session) (id : Nat) (role role' : Role) :
    recast (recast s id role) id role' = recast s id role' := by
  have hnodes : ((s.nodes.modify id fun n ↦ { n with role }).modify id fun n ↦ { n with role := role' }) =
      s.nodes.modify id fun n ↦ { n with role := role' } := by
    refine Array.ext_getElem? fun i ↦ ?_
    simp only [Array.getElem?_modify]
    split
    · cases s.nodes[i]? <;> rfl
    · rfl
  simp only [recast, hnodes]

/-- A function that takes more instructions, all of which are in its entry. -/
structure Drafted (s : Session) (fn : Nat) (cmds : List Instruction) : Prop where
  role : (s.node fn).role = .function { entry := fn + 1, current := fn + 1 }
  entry : Reads s (fn + 1) cmds none

def filled (s : Session) (fn : Nat) (cmds : List Instruction) : Session :=
  recast s (fn + 1) (.block (extended (blockOf (s.node (fn + 1))) cmds))

def closed (s : Session) (fn : Nat) : Session :=
  recast s fn (.function { functionOf (s.node fn) with ended := true })

namespace Drafted

variable (h : Drafted s fn cmds)

include h

theorem lt : fn < s.nodes.size := Nat.lt_of_succ_lt h.entry.lt

theorem functionOf_eq : functionOf (s.node fn) = { entry := fn + 1, current := fn + 1 } := by
  rw [functionOf, h.role]

theorem checked : checkOpen fn s = (.ok (), s) :=
  checkOpen_eq_ok.2 ⟨by rw [h.functionOf_eq], rfl⟩

theorem filled (cs : List Instruction) : Drafted (filled s fn cs) fn (cmds ++ cs) := by
  refine ⟨?_, h.entry.extended cs⟩
  rw [Graph.filled, role_recast h.entry.lt, if_neg fn.lt_succ_self.ne, h.role]

theorem filled_filled (cs cs' : List Instruction) :
    Graph.filled (Graph.filled s fn cs) fn cs' = Graph.filled s fn (cs ++ cs') := by
  have hblock : blockOf ((Graph.filled s fn cs).node (fn + 1)) = extended (blockOf (s.node (fn + 1))) cs := by
    rw [Graph.filled, blockOf, role_recast h.entry.lt, if_pos rfl]
  have hcommands (b : BlockState) : extended (extended b cs) cs' = extended b (cs ++ cs') := by
    simp only [extended, BlockState.mk.injEq, true_and, and_true]
    apply Array.toList_inj.1
    simp
  rw [Graph.filled, hblock, hcommands, Graph.filled, recast_recast, Graph.filled]

theorem filled_nil : Graph.filled s fn [] = s := by
  obtain ⟨b, hrole, -⟩ := h.entry.block
  have hsame : Role.block (extended (blockOf (s.node (fn + 1))) []) = (s.node (fn + 1)).role := by
    rw [blockOf, hrole]
    simp only [extended, Role.block.injEq]
    cases b
    simp
  rw [Graph.filled, hsame, recast_self]

theorem inked_filled (hs : Inked V M s) (hcs : Draws M cs) : Inked V M (Graph.filled s fn cs) :=
  hs.extend h.entry.notContainer hcs

theorem inked_closed (hs : Inked V M s) : Inked V M (closed s fn) :=
  hs.steer ⟨_, h.role⟩ (by rw [h.functionOf_eq]; exact h.entry.notContainer)

theorem add_apply (cs : List Instruction) : add fn cs s = (.ok (), Graph.filled s fn cs) := by
  simp only [add, bind_apply, h.checked, andThen_ok, function_apply, h.functionOf_eq, append_apply, Graph.filled]

theorem finish_apply : finish fn s = (.ok (), closed s fn) := by
  have hsame : recast s (fn + 1) (.block { blockOf (s.node (fn + 1)) with continuation := none }) = s := by
    obtain ⟨b, hrole, -, hstops⟩ := h.entry.block
    have hblock : (Role.block { blockOf (s.node (fn + 1)) with continuation := none }) = (s.node (fn + 1)).role := by
      rw [blockOf, hrole]
      cases b
      cases hstops
      rfl
    rw [hblock, recast_self]
  simp only [finish, bind_apply, function_apply, andThen_ok, h.functionOf_eq]
  rw [if_pos (by decide), bind_apply, updateBlock_apply, andThen_ok, hsame, updateFunction_apply, closed]

theorem move_apply {src dst : Operand} (hmove : Transfer.move src dst = pure cs) :
    move fn src dst s = (.ok (), Graph.filled s fn cs) := by
  rw [move, bind_apply, h.checked, andThen_ok, hmove, bind_apply, lift_pure, andThen_ok]
  exact h.add_apply cs

theorem leave_apply {src dst : Operand} (hreturns : s.returns = some dst) (hmove : Transfer.move src dst = pure cs) :
    leave fn (some src) s = (.ok (), Graph.filled s fn cs) := by
  have h' := h.filled cs
  have hsame : recast (Graph.filled s fn cs) fn
      (.function { functionOf ((Graph.filled s fn cs).node fn) with continuation := none }) = Graph.filled s fn cs := by
    have hrole : (Role.function { functionOf ((Graph.filled s fn cs).node fn) with continuation := none }) =
        ((Graph.filled s fn cs).node fn).role := by
      rw [h'.functionOf_eq, h'.role]
    rw [hrole, recast_self]
  simp only [leave, bind_apply, h.checked, andThen_ok, get_apply, hreturns, h.move_apply hmove, updateFunction_apply, hsame]

end Drafted

theorem Drafted.spares (h : Drafted s fn cmds) (hs : Spares N s s') (hN : fn + 1 < N) : Drafted s' fn cmds :=
  ⟨(hs.role (Nat.lt_of_succ_lt hN)).trans h.role, hs.reads hN h.entry⟩

theorem drafted_functionMade (hp : parent < s.nodes.size) (name entryName : String) (tags : List Path)
    (description : String) : Drafted (functionMade s parent name entryName tags description) s.nodes.size [] := by
  refine ⟨by rw [role_functionMade hp, if_pos rfl], by simp, { tags, description }, ?_, rfl, rfl⟩
  rw [role_functionMade hp, if_neg (Nat.lt_succ_self _).ne', if_pos rfl]

theorem Drafted.opened (h : Drafted s fn cmds) : Open s fn { entry := fn + 1, current := fn + 1 } := by
  obtain ⟨b, hrole, -, hstops⟩ := h.entry.block
  exact ⟨h.lt, h.role, rfl, h.entry.lt, h.entry.notContainer, by rw [blockOf, hrole, hstops]⟩

theorem Open.add_apply (h : Open s fn f) (cs : List Instruction) :
    add fn cs s = (.ok (), recast s f.current (.block (extended (blockOf (s.node f.current)) cs))) := by
  simp only [add, bind_apply, h.checked, andThen_ok, function_apply, h.functionOf_eq, append_apply]

theorem Open.added (h : Open s fn f) (hs : Inked V M s) (hN : N ≤ f.current) (hcs : Draws M cs) :
    ∃ s', add fn cs s = (.ok (), s') ∧ Open s' fn f ∧ Spares N s s' ∧ Inked V M s' :=
  ⟨_, h.add_apply cs, (h.touches_current _).opened h h.ended rfl h.stops, spares_recast h.current_lt hN _,
    hs.extend h.block hcs⟩

theorem finish_spares (hfn : fn < s.nodes.size) (hrole : (s.node fn).role = .function f)
    (hcurrent : f.current < s.nodes.size) (hN : N ≤ fn ∧ N ≤ f.current) :
    ∃ s', finish fn s = (.ok (), s') ∧ Spares N s s' := by
  simp only [finish, bind_apply, function_apply, andThen_ok, functionOf, hrole]
  split
  · exact ⟨_, by simp only [updateBlock_apply, updateFunction_apply, bind_apply, andThen_ok]; rfl,
      (spares_recast hcurrent hN.2 _).trans (spares_recast (by simpa using hfn) hN.1 _)⟩
  · exact ⟨s, rfl, le_rfl, fun _ ↦ rfl, fun _ ↦ rfl, rfl, rfl⟩

theorem Inked.finish (hs : Inked V M s) (hfn : IsFunction s fn) (hfinish : finish fn s = (.ok (), s')) : Inked V M s' := by
  have hcurrent := hs.sane.current hfn
  simp only [Graph.finish, bind_apply, function_apply, andThen_ok] at hfinish
  split at hfinish
  · simp only [updateBlock_apply, updateFunction_apply, bind_apply, andThen_ok] at hfinish
    generalize hb : ({ blockOf (s.node (functionOf (s.node fn)).current) with continuation := _ } : BlockState) = b at hfinish
    have hfilled := hs.fill hcurrent (b := b) (by rw [← hb]; exact hs.covers _)
    have hfn' := (Alters.fill (V := V) (b := b) hcurrent).before.function hfn
    cases hfinish
    exact hfilled.steer hfn' (hfilled.sane.current hfn')
  · cases hfinish
    exact hs

/-- A loop names the symbols of its condition and one more, the player that counts its rounds. -/
theorem Open.inked_loop {c : Condition} {body : Nat} (h : Open s fn f) (hV : V.Usual) (hs : Inked V M s)
    (hobjective : Covers M s.objective) (hc : ∀ name ∈ c.parts, Covers M name) (hrun : loop fn c s = (.ok body, s')) :
    ∃ M', M ⊆ M' ∧ Inked V M' s' := by
  obtain ⟨-, hnext, hjoins, hside, hcheck⟩ := loop_spec h hrun
  have hsteps := (altered_loop hV hs.sane ⟨f, h.role⟩ c).1
  have hsize : s'.nodes.size = s.nodes.size + 4 := by
    rw [loop_apply h.lt h.checked] at hrun
    rw [← (Prod.mk.inj hrun).2]
    simp [cycleMade, roundMade]
  rw [hrun] at hsteps
  obtain ⟨M', hM, hplayer, hcounter⟩ := hs.mint .player "_iteration_number" (hs.sane.rooted.isOwner fn) (List.forall_mem_nil _)
  refine ⟨M', hM, hcounter.toNumbered, hsteps.sane hs.sane, hs.single_of_altered hsteps, fun hv ↦ hnext ▸ hcounter.lt hv,
    fun id ↦ ?_⟩
  have hscore : Covers M' (loopScore s fn).player ∧ Covers M' (loopScore s fn).objective := ⟨hplayer, hobjective.mono hM⟩
  have hold (id : Nat) : Draws M' (commandsAt s id) := fun i hi name hname ↦ (hs.covers id i hi name hname).mono hM
  have hargs : ∀ name ∈ c.args, Covers M' name := fun name hname ↦ (hc name (List.mem_of_mem_filter hname)).mono hM
  have hzero : ∀ name ∈ (Condition.within (loopScore s fn) "0").args, Covers M' name := by
    have hparts : ∀ name ∈ (Condition.within (loopScore s fn) "0").parts, Covers M' name := by
      simp [Condition.within, hscore]
    exact fun name hname ↦ hparts name (List.mem_of_mem_filter hname)
  by_cases hid : id < s.nodes.size
  · by_cases hfn : id = fn
    · rw [commandsAt, blockOf, hfn, hjoins.next.role]
      exact List.forall_mem_nil _
    · by_cases hcur : id = f.current
      · rw [hcur, hjoins.current.commandsAt_eq]
        exact (hold _).append (by simp [Draws, loopCommands, scoreInstruction, namesIn, hscore])
      · rw [commandsAt, blockOf, hjoins.frame hid hfn hcur]
        exact hold id
  · obtain rfl | rfl | rfl | rfl | hlast : id = s.nodes.size ∨ id = s.nodes.size + 1 ∨ id = s.nodes.size + 2 ∨
        id = s.nodes.size + 3 ∨ s'.nodes.size ≤ id := by omega
    · rw [commandsAt, blockOf, hside.opened.role]
      exact List.forall_mem_nil _
    · simp [hside.commands, Draws, scoreInstruction, namesIn, hscore]
    · rw [hcheck.commandsAt_eq, Draws, checkCommands]
      simp only [List.forall_mem_cons, guarded, namesIn_pair, namesIn, List.forall_mem_append]
      exact ⟨⟨hargs, List.forall_mem_nil _⟩, by simp [scoreInstruction, namesIn, hscore],
        ⟨⟨hargs, hzero⟩, List.forall_mem_nil _⟩, List.forall_mem_nil _⟩
    · rw [hjoins.empty]
      exact List.forall_mem_nil _
    · rw [commandsAt, blockOf, node_of_size_le hlast]
      exact List.forall_mem_nil _

theorem Open.looped (h : Open s fn f) (hfn : N ≤ fn) (hN : N ≤ f.current) (c : Condition) :
    ∃ body s', loop fn c s = (.ok body, s') ∧ Spares N s s' ∧ s.nodes.size ≤ body ∧
      (∃ g, Open s' body g ∧ s.nodes.size ≤ g.current) ∧ ∃ g, Open s' fn g ∧ s.nodes.size ≤ g.current := by
  have happly := loop_apply (c := c) h.lt h.checked
  obtain ⟨-, -, hjoins, hside, -⟩ := loop_spec h happly
  refine ⟨_, _, happly, ⟨hjoins.grown.grows.size, fun hid ↦ ?_, fun hid ↦ ?_, hjoins.grown.grows.objective, ?_⟩, le_rfl,
    ⟨_, hside.opened, hside.entry_fresh⟩, _, hjoins.next, hjoins.fresh⟩
  · exact hjoins.grown.grows.path (hid.trans (hfn.trans_lt h.lt))
  · exact hjoins.frame (hid.trans (hfn.trans_lt h.lt)) (hid.trans_le hfn).ne (hid.trans_le hN).ne
  · simp only [joined, cycleMade, roundMade, bodyMade, functionMade, List.foldl_cons, List.foldl_nil, resumed, recast,
      minted, returns_made]

/-- A computation gives a result, which together with the graph after it is as said. -/
def Runs {α : Type} (x : Build α) (s : Session) (Q : α → Session → Prop) : Prop := ∃ a s', x s = (.ok a, s') ∧ Q a s'

theorem Runs.bind {β : Type} {x : Build α} {f : α → Build β} {Q : α → Session → Prop} {R : β → Session → Prop}
    (hx : Runs x s Q) (hf : ∀ a s₁, Q a s₁ → Runs (f a) s₁ R) : Runs (x >>= f) s R := by
  obtain ⟨a, s₁, hxs, ha⟩ := hx
  obtain ⟨b, s₂, hfs, hb⟩ := hf a s₁ ha
  exact ⟨b, s₂, by rw [bind_apply, hxs, andThen_ok, hfs], hb⟩

theorem Runs.step {β : Type} {x : Build α} {f : α → Build β} {a : α} {R : β → Session → Prop} (hx : x s = (.ok a, s₁))
    (hf : Runs (f a) s₁ R) : Runs (x >>= f) s R := by
  obtain ⟨b, s₂, hfs, hb⟩ := hf
  exact ⟨b, s₂, by rw [bind_apply, hx, andThen_ok, hfs], hb⟩

theorem Runs.imp {x : Build α} {Q R : α → Session → Prop} (hx : Runs x s Q) (h : ∀ a s', Q a s' → R a s') :
    Runs x s R := by
  obtain ⟨a, s', hxs, ha⟩ := hx
  exact ⟨a, s', hxs, h a s' ha⟩

theorem Runs.pure {a : α} {Q : α → Session → Prop} (h : Q a s) : Runs (pure a) s Q := ⟨a, s, rfl, h⟩

theorem symbol_apply {kind : SymbolKind} {text : String} {owner : Option Path} {args : List Name} :
    (liftM (Synth.symbol kind text owner args) : Build Symbol) s =
      (.ok ⟨s.nextSymbol, kind, text, owner, args⟩, minted s) := rfl

/-- A node of a graph is at a path. -/
def IsAt (s : Session) (id : Nat) (p : Path) : Prop := id < s.nodes.size ∧ (s.node id).path = p

theorem IsAt.spares {p : Path} (h : IsAt s id p) (hs : Spares s.nodes.size s s') : IsAt s' id p :=
  ⟨h.1.trans_le hs.size, (hs.path h.1).trans h.2⟩

/-- A node at a path may have nodes below it. -/
structure IsPlace (s : Session) (id : Nat) (p : Path) : Prop where
  isAt : IsAt s id p
  container : (s.node id).isContainer = true

theorem IsPlace.spares {p : Path} (h : IsPlace s id p) (hs : Spares s.nodes.size s s') : IsPlace s' id p :=
  ⟨h.isAt.spares hs, by rw [Node.isContainer, hs.role h.isAt.1]; exact h.container⟩

theorem IsPlace.inked_made {p : Path} (h : IsPlace s id p) (hs : Inked V M s) (hname : V.child name) (hrole : IsNew role) :
    Inked V M (made s id name role) := hs.made h.isAt.1 h.container hname hrole

theorem IsPlace.inked_functionMade {p : Path} (h : IsPlace s id p) (hs : Inked V M s) (hname : V.child name) (tags : List Path)
    (description : String) : Inked V M (functionMade s id name name tags description) :=
  hs.functionMade h.isAt.1 h.container hname hname tags description

/-- From one graph to a later one, a function of one block was made and ended, and nothing else happened. -/
structure Defines (s s' : Session) (fn : Nat) (path : Path) (cmds : List Instruction) : Prop where
  spares : Spares s.nodes.size s s'
  reads : Reads s' (fn + 1) cmds none
  entry : (functionOf (s'.node fn)).entry = fn + 1
  path : (s'.node (fn + 1)).path = path

/-- What was said about a function that takes more instructions holds when it is ended. -/
theorem Drafted.closed (h : Drafted s fn cmds) (hN : N ≤ fn) :
    Spares N s (closed s fn) ∧ Reads (closed s fn) (fn + 1) cmds none ∧
      (functionOf ((Graph.closed s fn).node fn)).entry = fn + 1 := by
  refine ⟨spares_recast h.lt hN _, h.entry.recast h.lt fn.lt_succ_self.ne' _, ?_⟩
  rw [Graph.closed, functionOf, role_recast h.lt, if_pos rfl, h.functionOf_eq]

/-- From one graph to a later one, at most the function `fn` and nodes after it stand for something else. -/
structure Edits (fn : Nat) (s s' : Session) : Prop extends Spares fn s s' where
  place (id : Nat) : (s'.node id).path = (s.node id).path
  container (id : Nat) : (s'.node id).isContainer = (s.node id).isContainer

theorem Edits.trans (h : Edits fn s s₁) (h' : Edits fn s₁ s') : Edits fn s s' :=
  ⟨h.toSpares.trans h'.toSpares, fun id ↦ (h'.place id).trans (h.place id),
    fun id ↦ (h'.container id).trans (h.container id)⟩

theorem edits_recast (hk : k < s.nodes.size) (hle : fn ≤ k)
    (hrole : (match role with | .block _ => false | _ => true) = (s.node k).isContainer) : Edits fn s (recast s k role) :=
  ⟨spares_recast hk hle role, path_recast hk, container_recast hk hrole⟩

theorem Drafted.edits_filled (h : Drafted s fn cmds) (cs : List Instruction) : Edits fn s (Graph.filled s fn cs) :=
  edits_recast h.entry.lt fn.le_succ h.entry.notContainer.symm

theorem Drafted.edits_closed (h : Drafted s fn cmds) : Edits fn s (Graph.closed s fn) :=
  edits_recast h.lt le_rfl (by rw [Node.isContainer, h.role])

theorem Drafted.spares_filled (h : Drafted s fn cmds) (hN : N ≤ fn + 1) (cs : List Instruction) :
    Spares N s (Graph.filled s fn cs) := spares_recast h.entry.lt hN _

end CommandPack.Graph

namespace CommandPack.Library

open CommandPack.Graph Stateful

variable {r : Registers} {p root : Path} {callee fn : Nat} {o : Objects} {temp : Symbol}
  {x : Synth (List Instruction)} {cs : List Instruction} {s s' : Session} {parent : Nat} {name description : String}
  {cmds : List Instruction} {body : NodeId → Build Unit} {V : Vocabulary} {M : Set Symbol}

theorem draws_scoreToScore {a b : Score} (ha : Covers M a.player ∧ Covers M a.objective)
    (hb : Covers M b.player ∧ Covers M b.objective) : Draws M [Transfer.scoreToScore a b] := by
  rw [Transfer.scoreToScore]
  split <;> simp [Draws, Instruction.comment, Instruction.text, namesIn, ha, hb]

theorem define_spec (hs : Inked V M s) (hp : IsPlace s parent p) (hname : V.child name) (hcmds : Draws M cmds)
    (hbody : ∀ s₁, Drafted s₁ s.nodes.size [] → Spares s.nodes.size s s₁ →
      body s.nodes.size s₁ = (.ok (), filled s₁ s.nodes.size cmds)) :
    Runs (define parent name description body) s fun fn s' ↦ Defines s s' fn (p ++ [name, name]) cmds ∧ Inked V M s' := by
  have hplace := hp
  obtain ⟨⟨hp, rfl⟩, -⟩ := hp
  let s₁ := functionMade s parent name name [] description
  have hdrafted : Drafted s₁ s.nodes.size [] := drafted_functionMade hp name name [] description
  have hspares : Spares s.nodes.size s s₁ := spares_functionMade le_rfl hp name name [] description
  have hfilled := hdrafted.filled cmds
  obtain ⟨hclosed, hreads, hentry⟩ := hfilled.closed le_rfl
  refine ⟨s.nodes.size, closed (filled s₁ s.nodes.size cmds) s.nodes.size, ?_, ⟨?_, hreads, hentry, ?_⟩,
    hfilled.inked_closed (hdrafted.inked_filled (hplace.inked_functionMade hs hname [] description) hcmds)⟩
  · simp only [define, bind_apply, createFunction_apply, andThen_ok]
    rw [hbody s₁ hdrafted hspares, andThen_ok, bind_apply, hfilled.finish_apply, andThen_ok, pure_apply]
  · exact hspares.trans ((hdrafted.spares_filled (Nat.le_succ _) cmds).trans hclosed)
  · rw [closed, path_recast hfilled.lt, filled, path_recast hdrafted.entry.lt, path_functionMade hp,
      if_neg (Nat.succ_ne_self _), if_pos rfl]

theorem fillLoad_spec (h : Drafted s fn []) (hs : Inked V M s) (r : Registers) (purpose : String)
    {objectives : List Symbol} (hobjectives : ∀ v ∈ objectives, v ∈ M) (greeting : Option String) :
    Runs (r.fillLoad fn purpose objectives greeting) s fun _ s' ↦ Edits fn s s' ∧ Inked V M s' := by
  generalize hcmds : (Instruction.comment purpose ::
    objectives.map fun o ↦ .literal "scoreboard objectives add %s dummy" [.sym o]) = cmds
  have hdraws : Draws M cmds := by
    simpa [← hcmds, Draws, Instruction.comment, Instruction.text, namesIn] using hobjectives
  have hfilled := h.filled cmds
  have hs₁ := h.inked_filled hs hdraws
  cases greeting with
  | none =>
    refine ⟨(), closed (filled s fn cmds) fn, ?_, (h.edits_filled cmds).trans hfilled.edits_closed,
      hfilled.inked_closed hs₁⟩
    simp only [Registers.fillLoad, bind_apply, hcmds, h.add_apply, andThen_ok, hfilled.finish_apply]
  | some text =>
    obtain ⟨cs, hlog, hcs⟩ : ∃ cs, Message.log (some r.scratch) r.name [.text text] = pure cs ∧ Draws M cs :=
      ⟨_, rfl, by simp [Draws, namesIn, Content.names]⟩
    have hlogged : r.log fn [.text text] (filled s fn cmds) = (.ok (), filled (filled s fn cmds) fn cs) := by
      rw [Registers.log, hlog, bind_apply, lift_pure, andThen_ok, hfilled.add_apply]
    have hfilled' := hfilled.filled cs
    refine ⟨(), closed (filled (filled s fn cmds) fn cs) fn, ?_,
      ((h.edits_filled cmds).trans (hfilled.edits_filled cs)).trans hfilled'.edits_closed,
      hfilled'.inked_closed (hfilled.inked_filled hs₁ hcs)⟩
    simp only [Registers.fillLoad, bind_apply, hcmds, h.add_apply, andThen_ok, hlogged, hfilled'.finish_apply]

def objectPath (root : Path) : ObjectOperation → Path
  | .create => root ++ ["object", "object", "__new__", "__new__"]
  | .fetch => root ++ ["object", "fetch_object", "fetch_object"]
  | .retain => root ++ ["object", "garbage_collection", "increment_reference_count", "increment_reference_count"]
  | .release => root ++ ["object", "garbage_collection", "decrement_reference_count", "decrement_reference_count"]
  | .collect => root ++ ["object", "garbage_collection", "garbage_collect", "garbage_collect"]

def countInstruction (word : String) (o : Objects) : Instruction :=
  .literal ("scoreboard players " ++ word ++ " @e[tag=%s] %s 1") [.sym o.fetchedTag, .sym o.refCount]

def objectInstructions (r : Registers) (o : Objects) (temp : Symbol) (fetch : Path) :
    ObjectOperation → List Instruction
  | .create => untagAll temp ++ untagAll o.fetchedTag ++ [.comment "increment the object id counter"] ++
      [scoreInstruction "add" o.counter "1"] ++
      [.comment "summon a marker with the temp tag",
        .literal "summon minecraft:marker 0 0 0 \x7bTags:[\"%s\",\"%s\",\"%s\"]\x7d"
          [.sym o.tag, .sym temp, .sym o.fetchedTag],
        .comment "set the object id and reference count of the marker",
        .literal "scoreboard players operation @e[tag=%s] %s = %s %s"
          [.sym temp, .sym o.idObjective, o.counter.player, o.counter.objective],
        .literal "scoreboard players set @e[tag=%s] %s 1" [.sym temp, .sym o.refCount]] ++
      [Transfer.scoreToScore o.counter r.ret]
  | .fetch => untagAll o.fetchedTag ++ [.comment "give the selected entity the tag",
      .literal "execute as @e[tag=%s] if score @s %s = %s %s run tag @s add %s"
        [.sym o.tag, .sym o.idObjective, r.arg.player, r.arg.objective, .sym o.fetchedTag]]
  | .retain => [.call ⟨fetch, none⟩, countInstruction "add" o]
  | .release => [.call ⟨fetch, none⟩, countInstruction "remove" o]
  | .collect => [.literal "execute as @e[tag=%s] unless score @s %s matches 1.. run kill @s" [.sym o.tag, .sym o.refCount]]

theorem draws_objectInstructions (hobjectives : o.idObjective ∈ M ∧ o.refCount ∈ M)
    (htags : o.tag ∈ M ∧ temp ∈ M ∧ o.fetchedTag ∈ M) (hcounter : Covers M o.counter.player ∧ Covers M o.counter.objective)
    (harg : Covers M r.arg.player ∧ Covers M r.arg.objective) (hret : Covers M r.ret.player ∧ Covers M r.ret.objective)
    (fetch : Path) (op : ObjectOperation) : Draws M (objectInstructions r o temp fetch op) := by
  cases op with
  | create =>
    refine Draws.append ?_ (draws_scoreToScore hcounter hret)
    simp [Draws, untagAll, scoreInstruction, Instruction.comment, Instruction.text, namesIn, hobjectives, htags, hcounter]
  | fetch | retain | release | collect =>
    simp [Draws, objectInstructions, untagAll, countInstruction, Instruction.comment, Instruction.text, namesIn, hobjectives,
      htags, harg]

/-- The functions about objects are in a graph, and their symbols are of the right kinds. -/
structure Stocks (s : Session) (root : Path) (r : Registers) (o : Objects) (temp : Symbol) : Prop where
  reads (op : ObjectOperation) : ∃ id, Reads s id (objectInstructions r o temp (objectPath root .fetch) op) none ∧
    (s.node id).path = objectPath root op
  objectives : o.idObjective.kind = .objective ∧ o.idObjective.text = "id" ∧
    o.refCount.kind = .objective ∧ o.refCount.text = "reference_count"
  tags : o.tag.kind = .tag ∧ o.tag.text = "object" ∧ temp.kind = .tag ∧ temp.text = "temp" ∧
    o.fetchedTag.kind = .tag ∧ o.fetchedTag.text = "object_ret"
  counter : ∃ v, o.counter = ⟨.sym v, s.objective⟩ ∧ v.kind = .player ∧ v.text = "obj_id_counter"

theorem Stocks.spares (h : Stocks s root r o temp) (hs : Spares s.nodes.size s s') : Stocks s' root r o temp := by
  refine ⟨fun op ↦ ?_, h.objectives, h.tags, by rw [hs.objective]; exact h.counter⟩
  obtain ⟨id, hreads, hpath⟩ := h.reads op
  exact ⟨id, hs.reads hreads.lt hreads, (hs.path hreads.lt).trans hpath⟩

theorem call_apply (h : Drafted s fn cmds) (hentry : (functionOf (s.node callee)).entry = callee + 1)
    (hpath : (s.node (callee + 1)).path = p) : r.call fn callee none s = (.ok (), filled s fn [.call ⟨p, none⟩]) := by
  have hcall : Instruction.checkedCall (some ⟨p, none⟩) = .ok (.call ⟨p, none⟩) := rfl
  simp only [Registers.call, bind_apply, andThen_ok, function_apply, hentry, path_apply, hpath, Graph.call, hcall]
  exact h.add_apply _

theorem count_apply (h : Drafted s fn cmds) (hentry : (functionOf (s.node callee)).entry = callee + 1)
    (hpath : (s.node (callee + 1)).path = p) (word : String) :
    (do r.call fn callee none; Graph.add fn [countInstruction word o] : Build Unit) s =
      (.ok (), filled s fn [.call ⟨p, none⟩, countInstruction word o]) := by
  rw [bind_apply, call_apply h hentry hpath, andThen_ok, (h.filled _).add_apply, h.filled_filled]
  rfl

theorem defineObjects_spec {counting : Nat} (hV : V.Usual) (hs : Inked V M s)
    (hdraws : ∀ op, Draws M (objectInstructions r o temp (objectPath root .fetch) op))
    (hgroup : IsPlace s o.group (root ++ ["object"])) (hbase : IsPlace s o.base (root ++ ["object", "object"]))
    (hcounting : IsPlace s counting (root ++ ["object", "garbage_collection"]))
    (hreturns : s.returns = some (.score r.ret)) :
    Runs (do
      let _ ← define o.base "__new__" "Create a new object and return its object id." fun fn => do
        Graph.add fn (← newObjectBody o.idObjective o.refCount o.tag temp o.fetchedTag o.counter)
        Graph.leave fn (some (.score o.counter))
      let _ ← define o.base "__init__" "Initialize an object. Classes override this function."
        fun _ => pure ()
      let fetch ← define o.group "fetch_object"
        "Give the object whose id is in the argument register the return tag." fun fn =>
          Graph.add fn (untagAll o.fetchedTag ++ [.comment "give the selected entity the tag",
            .literal "execute as @e[tag=%s] if score @s %s = %s %s run tag @s add %s"
              [.sym o.tag, .sym o.idObjective, r.arg.player, r.arg.objective, .sym o.fetchedTag]])
      let _ ← define counting "increment_reference_count"
        "Increment the reference count of an object." fun fn => do
          r.call fn fetch none
          Graph.add fn [.literal "scoreboard players add @e[tag=%s] %s 1"
            [.sym o.fetchedTag, .sym o.refCount]]
      let _ ← define counting "decrement_reference_count"
        "Decrement the reference count of an object." fun fn => do
          r.call fn fetch none
          Graph.add fn [.literal "scoreboard players remove @e[tag=%s] %s 1"
            [.sym o.fetchedTag, .sym o.refCount]]
      let _ ← define counting "garbage_collect" "Kill every object without references." fun fn =>
        Graph.add fn [.literal "execute as @e[tag=%s] unless score @s %s matches 1.. run kill @s"
          [.sym o.tag, .sym o.refCount]]
      return { o with fetch }) s fun o' s' ↦ Spares s.nodes.size s s' ∧ Inked V M s' ∧
        (∃ fetch, o' = { o with fetch } ∧ fetch < s'.nodes.size) ∧
        ∀ op, ∃ id, Reads s' id (objectInstructions r o temp (objectPath root .fetch) op) none ∧
          (s'.node id).path = objectPath root op := by
  have hmove : Transfer.move (.score o.counter) (.score r.ret) = pure [Transfer.scoreToScore o.counter r.ret] := rfl
  refine .bind (define_spec hs hbase (hV rfl) (hdraws .create) ?_) ?_
  · intro s' hdrafted hspares
    simp only [newObjectBody, addConst_one, pure_bind, bind_apply, lift_pure, andThen_ok, hdrafted.add_apply]
    rw [(hdrafted.filled _).leave_apply (hspares.returns.trans hreturns) hmove, hdrafted.filled_filled]
    rfl
  rintro _ s₁ ⟨h₁, hi₁⟩
  refine .bind (define_spec hi₁ (hbase.spares h₁.spares) (hV rfl) (List.forall_mem_nil _) ?_) ?_
  · intro s' hdrafted _
    rw [pure_apply, hdrafted.filled_nil]
  rintro _ s₂ ⟨h₂, hi₂⟩
  have hs₂ := h₁.spares.next h₂.spares
  refine .bind (define_spec hi₂ (hgroup.spares hs₂) (hV rfl) (hdraws .fetch) ?_) ?_
  · intro s' hdrafted _
    exact hdrafted.add_apply _
  rintro fetch s₃ ⟨h₃, hi₃⟩
  have hs₃ := hs₂.next h₃.spares
  have hfetch {s' : Session} (hs' : Spares s₃.nodes.size s₃ s') : (functionOf (s'.node fetch)).entry = fetch + 1 ∧
      (s'.node (fetch + 1)).path = objectPath root .fetch := by
    have hlt := h₃.reads.lt
    rw [functionOf, hs'.role (Nat.lt_of_succ_lt hlt), hs'.path hlt, h₃.path, ← functionOf, h₃.entry]
    exact ⟨rfl, List.append_assoc ..⟩
  refine .bind (define_spec hi₃ (hcounting.spares hs₃) (hV rfl) (hdraws .retain) ?_) ?_
  · intro s' hdrafted hspares
    obtain ⟨hentry, hpath⟩ := hfetch hspares
    exact count_apply hdrafted hentry hpath "add"
  rintro _ s₄ ⟨h₄, hi₄⟩
  have hs₄ := hs₃.next h₄.spares
  refine .bind (define_spec hi₄ (hcounting.spares hs₄) (hV rfl) (hdraws .release) ?_) ?_
  · intro s' hdrafted hspares
    obtain ⟨hentry, hpath⟩ := hfetch (h₄.spares.next hspares)
    exact count_apply hdrafted hentry hpath "remove"
  rintro _ s₅ ⟨h₅, hi₅⟩
  have hs₅ := hs₄.next h₅.spares
  refine .bind (define_spec hi₅ (hcounting.spares hs₅) (hV rfl) (hdraws .collect) ?_) ?_
  · intro s' hdrafted _
    exact hdrafted.add_apply _
  rintro _ s₆ ⟨h₆, hi₆⟩
  have h₄₆ := h₅.spares.next h₆.spares
  have h₃₆ := h₄.spares.next h₄₆
  have h₁₆ := (h₂.spares.next h₃.spares).next h₃₆
  refine .pure ⟨hs₅.next h₆.spares, hi₆, ⟨fetch, rfl, (Nat.lt_of_succ_lt h₃.reads.lt).trans_le h₃₆.size⟩, fun op ↦ ?_⟩
  -- Each function is as it was defined, since the later ones spare it.
  cases op with
  | create => exact ⟨_, h₁₆.reads h₁.reads.lt h₁.reads, by rw [h₁₆.path h₁.reads.lt, h₁.path, List.append_assoc]; rfl⟩
  | fetch => exact ⟨_, h₃₆.reads h₃.reads.lt h₃.reads, by rw [h₃₆.path h₃.reads.lt, h₃.path, List.append_assoc]; rfl⟩
  | retain => exact ⟨_, h₄₆.reads h₄.reads.lt h₄.reads, by rw [h₄₆.path h₄.reads.lt, h₄.path, List.append_assoc]; rfl⟩
  | release =>
    exact ⟨_, h₆.spares.reads h₅.reads.lt h₅.reads, by rw [h₆.spares.path h₅.reads.lt, h₅.path, List.append_assoc]; rfl⟩
  | collect => exact ⟨_, h₆.reads, by rw [h₆.path, List.append_assoc]; rfl⟩

theorem isAt_made (hp : IsAt s parent p) (name : String) (role : Role) :
    IsAt (made s parent name role) s.nodes.size (p ++ [name]) := by
  obtain ⟨hp, rfl⟩ := hp
  exact ⟨by simp, by rw [path_made hp, if_pos rfl]⟩

theorem isPlace_made (hp : IsPlace s parent p) (name : String) (role : Role)
    (hrole : (match role with | .block _ => false | _ => true) = true) :
    IsPlace (made s parent name role) s.nodes.size (p ++ [name]) :=
  ⟨isAt_made hp.isAt name role, by rw [Node.isContainer, role_made hp.isAt.1, if_pos rfl]; exact hrole⟩

theorem createClass_apply (s : Session) (parent : Nat) (name : String) :
    createClass parent name [] s = (.ok s.nodes.size, made s parent name (.family [] [])) :=
  create_apply s parent name (.family [] [])

theorem installObjects_spec (hV : V.Usual) (hs : Inked V M s) (hroot : IsPlace s r.root root)
    (hreturns : s.returns = some (.score r.ret)) (hobjective : Covers M s.objective)
    (harg : Covers M r.arg.player ∧ Covers M r.arg.objective) (hret : Covers M r.ret.player ∧ Covers M r.ret.objective)
    (greeting : Bool) :
    Runs (installObjects r greeting) s fun o s' ↦ Spares s.nodes.size s s' ∧ o.fetch < s'.nodes.size ∧
      (∃ temp, Stocks s' root r o temp) ∧ ∃ M', M ⊆ M' ∧ Inked V M' s' ∧ o.fetched ∈ M' ∧
        Covers M' o.counter.player ∧ Covers M' o.counter.objective := by
  -- The group and the symbols of objects.
  have hgroup := isPlace_made hroot "object" .group rfl
  have hspares₁ := spares_made le_rfl hroot.isAt.1 "object" .group
  have hs₁ : Inked V M (made s r.root "object" .group) := hroot.inked_made hs (hV rfl) trivial
  refine .step (create_apply s r.root "object" .group) ?_
  generalize made s r.root "object" .group = s₁ at hgroup hspares₁ hs₁ ⊢
  have howner := hs₁.sane.rooted.isOwner s.nodes.size
  obtain ⟨M₁, hM₁, hid, hs₁⟩ := hs₁.mint .objective "id" howner (List.forall_mem_nil _)
  obtain ⟨M₂, hM₂, hcounter, hs₁⟩ := hs₁.mint .player "obj_id_counter" howner (List.forall_mem_nil _)
  obtain ⟨M₃, hM₃, hmark, hs₁⟩ := hs₁.mint .tag "object_ret" howner (List.forall_mem_nil _)
  obtain ⟨M₄, hM₄, hfetched, hs₂⟩ := hs₁.mint .composite "@e[tag=%s]" (show IsOwner V none by simp [IsOwner])
    (List.forall_mem_singleton.2 (show Covers M₃ (.sym _) from hmark))
  refine .step (path_apply _ _) ?_
  refine .step symbol_apply ?_
  refine .step (score_apply _ _ _) ?_
  refine .step symbol_apply ?_
  refine .step symbol_apply ?_
  have hspares₂ : Spares s₁.nodes.size s₁ (minted (minted (minted (minted s₁)))) :=
    ⟨le_rfl, fun _ ↦ rfl, fun _ ↦ rfl, rfl, rfl⟩
  generalize minted (minted (minted (minted s₁))) = s₂ at hspares₂ hs₂ ⊢
  have hgroup₂ := hgroup.spares hspares₂
  -- The function that makes the objectives is filled after the group for counting was made.
  refine .step (createFunction_apply _ _ _ _ _ _) ?_
  refine .step (create_apply _ _ _ _) ?_
  refine .step (path_apply _ _) ?_
  refine .step symbol_apply ?_
  have hload := drafted_functionMade hgroup₂.isAt.1 "load" "load" [loadTag] "Create the object objectives."
  have hspares₃ := spares_functionMade le_rfl hgroup₂.isAt.1 "load" "load" [loadTag] "Create the object objectives."
  have hs₃ := hgroup₂.inked_functionMade hs₂ (show V.child "load" from hV rfl) [loadTag] "Create the object objectives."
  generalize functionMade s₂ s.nodes.size "load" "load" [loadTag] "Create the object objectives." = s₃
    at hload hspares₃ hs₃ ⊢
  have hgroup₃ := hgroup₂.spares hspares₃
  have hcounting := isPlace_made hgroup₃ "garbage_collection" .group rfl
  have hspares₄ := spares_made le_rfl hgroup₃.isAt.1 "garbage_collection" .group
  have hs₄ : Inked V M₄ (made s₃ s.nodes.size "garbage_collection" .group) := hgroup₃.inked_made hs₃ (hV rfl) trivial
  generalize made s₃ s.nodes.size "garbage_collection" .group = s₄ at hcounting hspares₄ hs₄ ⊢
  have hload₄ := (hload.spares hspares₄ hload.entry.lt).spares (spares_minted _ s₄) (hload.entry.lt.trans_le hspares₄.size)
  obtain ⟨M₅, hM₅, hcount, hs₄⟩ := hs₄.mint .objective "reference_count" (hs₄.sane.rooted.isOwner s₃.nodes.size)
    (List.forall_mem_nil _)
  have hid₅ := hM₅ (hM₄ (hM₃ (hM₂ hid)))
  refine .bind (fillLoad_spec hload₄ hs₄ r _ (by simp [hid₅, hcount]) _) ?_
  rintro _ s₅ ⟨hedits, hs₅⟩
  have hspares₅ : Spares s₂.nodes.size s₂ s₅ := hspares₃.trans <|
    (hspares₄.mono hspares₃.size).trans ((spares_minted _ s₄).trans hedits.toSpares)
  have hcounting₅ : IsPlace s₅ s₃.nodes.size ((root ++ ["object"]) ++ ["garbage_collection"]) :=
    ⟨⟨hcounting.isAt.1.trans_le hedits.size, (hedits.place _).trans hcounting.isAt.2⟩,
      (hedits.container _).trans hcounting.container⟩
  have hgroup₅ := hgroup₂.spares hspares₅
  -- The class of all objects and its tags.
  have hbase := isPlace_made hgroup₅ "object" (.family [] []) rfl
  have hspares₆ := spares_made le_rfl hgroup₅.isAt.1 "object" (.family [] [])
  have hs₆ : Inked V M₅ (made s₅ s.nodes.size "object" (.family [] [])) := hgroup₅.inked_made hs₅ (hV rfl) trivial
  refine .step (createClass_apply _ _ _) ?_
  generalize made s₅ s.nodes.size "object" (.family [] []) = s₆ at hbase hspares₆ hs₆ ⊢
  refine .step (path_apply _ _) ?_
  refine .step symbol_apply ?_
  refine .step symbol_apply ?_
  have howner₆ := hs₆.sane.rooted.isOwner s₅.nodes.size
  obtain ⟨M₆, hM₆, htag, hs₆⟩ := hs₆.mint .tag "object" howner₆ (List.forall_mem_nil _)
  obtain ⟨M₇, hM₇, htemp, hs₇⟩ := hs₆.mint .tag "temp" howner₆ (List.forall_mem_nil _)
  have hspares₇ : Spares s₆.nodes.size s₆ (minted (minted s₆)) := ⟨le_rfl, fun _ ↦ rfl, fun _ ↦ rfl, rfl, rfl⟩
  generalize minted (minted s₆) = s₇ at hspares₇ hs₇ ⊢
  have hlate : M₂ ⊆ M₇ := hM₃.trans (hM₄.trans (hM₅.trans (hM₆.trans hM₇)))
  have hbegin : M ⊆ M₇ := hM₁.trans (hM₂.trans hlate)
  have hbefore : Spares s₂.nodes.size s₂ s₇ := (hspares₅.next hspares₆).next hspares₇
  have hall : Spares s.nodes.size s s₇ := (hspares₁.next hspares₂).next hbefore
  have hbase₇ : IsPlace s₇ s₅.nodes.size (root ++ ["object", "object"]) := by simpa using hbase.spares hspares₇
  have hcounting₇ : IsPlace s₇ s₃.nodes.size (root ++ ["object", "garbage_collection"]) := by
    simpa using hcounting₅.spares (hspares₆.next hspares₇)
  refine Runs.imp (defineObjects_spec (o := ⟨s.nodes.size, _, _, _, _, _, _, s₅.nodes.size, 0⟩) hV hs₇ ?_
    (hgroup₂.spares hbefore) hbase₇ hcounting₇ (hall.returns.trans hreturns)) ?_
  · have hM : M₅ ⊆ M₇ := hM₆.trans hM₇
    refine draws_objectInstructions ⟨hM hid₅, hM hcount⟩ ⟨hM₇ htag, htemp, hM (hM₅ (hM₄ hmark))⟩ ?_
      (harg.imp (·.mono hbegin) (·.mono hbegin)) (hret.imp (·.mono hbegin) (·.mono hbegin)) _
    exact ⟨hlate hcounter, (hspares₁.objective ▸ hobjective).mono hbegin⟩
  rintro _ s' ⟨hspares, hink, ⟨fetch, rfl, hlt⟩, hreads⟩
  refine ⟨hall.next hspares, hlt, ⟨_, hreads, ⟨rfl, rfl, rfl, rfl⟩, ⟨rfl, rfl, rfl, rfl, rfl, rfl⟩, ?_⟩, M₇, hbegin, hink,
    hM₇ (hM₆ (hM₅ hfetched)), hlate hcounter, (hspares₁.objective ▸ hobjective).mono hbegin⟩
  refine ⟨nextPlayer (minted s₁) s.nodes.size "obj_id_counter", ?_, rfl, rfl⟩
  rw [hspares.objective, hall.objective, ← hspares₁.objective]
  rfl

def stackWord : Stacks.Action → String
  | .push => "push"
  | .pop => "pop"
  | .peek => "peek"
  | .peekAny => "peek_any"

/-- Below a root there are the storage and the templates of stacks, of which none was used yet. -/
structure Racks (s : Session) (root : Path) (k : Stacks) : Prop where
  storage : ∃ id, k.storage = ⟨id, .path, "", some (root ++ ["stack"]), []⟩
  isAt (a : Stacks.Action) : IsAt s (a.template k) (root ++ ["stack", stackWord a])
  role (a : Stacks.Action) : (s.node (a.template k)).role = .template []

theorem Racks.spares {k : Stacks} (h : Racks s root k) (hs : Spares s.nodes.size s s') : Racks s' root k :=
  ⟨h.storage, fun a ↦ (h.isAt a).spares hs, fun a ↦ (hs.role (h.isAt a).1).trans (h.role a)⟩

theorem installStacks_spec (hV : V.Usual) (hs : Inked V M s) (hroot : IsPlace s r.root root) :
    Runs (installStacks r) s fun k s' ↦ Spares s.nodes.size s s' ∧ Racks s' root k ∧
      ∃ M', M ⊆ M' ∧ Inked V M' s' ∧ k.storage ∈ M' := by
  have htemplate {s₁ : Session} {M : Set Symbol} (hs : Inked V M s₁) (hgroup : IsPlace s₁ s.nodes.size (root ++ ["stack"]))
      (name : String) (hname : IsLabel name) :
      ∃ s₂, createTemplate s.nodes.size name s₁ = (.ok s₁.nodes.size, s₂) ∧ Spares s₁.nodes.size s₁ s₂ ∧ Inked V M s₂ ∧
        IsAt s₂ s₁.nodes.size (root ++ ["stack", name]) ∧ (s₂.node s₁.nodes.size).role = .template [] := by
    refine ⟨_, create_apply .., spares_made le_rfl hgroup.isAt.1 name _, hgroup.inked_made hs (hV hname) rfl, ?_, ?_⟩
    · simpa using isAt_made hgroup.isAt name (.template [])
    · rw [role_made hgroup.isAt.1, if_pos rfl]
  have hgroup := isPlace_made hroot "stack" .group rfl
  have hspares := (spares_made le_rfl hroot.isAt.1 "stack" .group).trans (spares_minted _ _)
  have hs₀ : Inked V M (made s r.root "stack" .group) := hroot.inked_made hs (hV rfl) trivial
  refine .step (create_apply s r.root "stack" .group) ?_
  refine .step (path_apply _ _) ?_
  have howner := hs₀.sane.rooted.isOwner s.nodes.size
  rw [hgroup.isAt.2] at howner ⊢
  refine .step symbol_apply ?_
  obtain ⟨M', hM, hstorage, hs₀⟩ := hs₀.mint .path "" howner (List.forall_mem_nil _)
  replace hgroup := hgroup.spares (spares_minted _ _)
  generalize made s r.root "stack" .group = s₀ at hgroup hspares hs₀ hstorage ⊢
  obtain ⟨s₁, h₁, hs₁, hi₁, hat₁, hrole₁⟩ := htemplate hs₀ hgroup "push" rfl
  obtain ⟨s₂, h₂, hs₂, hi₂, hat₂, hrole₂⟩ := htemplate hi₁ (hgroup.spares hs₁) "pop" rfl
  obtain ⟨s₃, h₃, hs₃, hi₃, hat₃, hrole₃⟩ := htemplate hi₂ ((hgroup.spares hs₁).spares hs₂) "peek" rfl
  obtain ⟨s₄, h₄, hs₄, hi₄, hat₄, hrole₄⟩ :=
    htemplate hi₃ (((hgroup.spares hs₁).spares hs₂).spares hs₃) "peek_any" rfl
  refine .step h₁ (.step h₂ (.step h₃ (.step h₄ (.pure ⟨?_, ⟨⟨_, rfl⟩, fun a ↦ ?_, fun a ↦ ?_⟩, M', hM, hi₄, hstorage⟩))))
  · exact hspares.trans ((((hs₁.next hs₂).next hs₃).next hs₄).mono hspares.size)
  · cases a with
    | push => exact hat₁.spares ((hs₂.next hs₃).next hs₄)
    | pop => exact hat₂.spares (hs₃.next hs₄)
    | peek => exact hat₃.spares hs₄
    | peekAny => exact hat₄
  · cases a with
    | push => exact (((hs₂.next hs₃).next hs₄).role hat₁.1).trans hrole₁
    | pop => exact ((hs₃.next hs₄).role hat₂.1).trans hrole₂
    | peek => exact (hs₄.role hat₃.1).trans hrole₃
    | peekAny => exact hrole₄

theorem runs_add {f : FunctionState} {N : Nat} (h : Open s fn f) (hs : Inked V M s) (hN : N ≤ f.current) (hx : x = pure cs)
    (hcs : Draws M cs) : Runs (do add fn (← x)) s fun _ s' ↦ Open s' fn f ∧ Spares N s s' ∧ Inked V M s' := by
  obtain ⟨s', happly, hopen⟩ := h.added hs hN hcs
  refine ⟨(), s', ?_, hopen⟩
  rw [hx, bind_apply, lift_pure, andThen_ok, happly]

theorem runs_addChecked {f : FunctionState} {N : Nat} (h : Open s fn f) (hs : Inked V M s) (hN : N ≤ f.current)
    (hx : x = pure cs) (hcs : Draws M cs) :
    Runs (do checkOpen fn; add fn (← x)) s fun _ s' ↦ Open s' fn f ∧ Spares N s s' ∧ Inked V M s' :=
  .step h.checked (runs_add h hs hN hx hcs)

theorem installDump_spec (hV : V.Usual) (hs : Inked V M s) (hroot : IsPlace s r.root root)
    (hobjective : Covers M s.objective) (harg : Covers M r.arg.player ∧ Covers M r.arg.objective)
    (hfetched : o.fetched ∈ M) (hcounter : Covers M o.counter.player ∧ Covers M o.counter.objective) :
    Runs (installDump r o) s fun _ s' ↦ Spares s.nodes.size s s' ∧ ∃ M', M ⊆ M' ∧ Inked V M' s' := by
  have hspares := spares_made le_rfl hroot.isAt.1 "debug" .group
  have hgroup := isPlace_made hroot "debug" .group rfl
  have hs₁ : Inked V M (made s r.root "debug" .group) := hroot.inked_made hs (hV rfl) trivial
  refine .step (create_apply s r.root "debug" .group) ?_
  generalize made s r.root "debug" .group = s₁ at hspares hgroup hs₁ ⊢
  have hdrafted := drafted_functionMade hgroup.isAt.1 "objdump" "objdump" [] "Print the data and tags of every object."
  have hspares₂ := hspares.trans (spares_functionMade hspares.size hgroup.isAt.1 "objdump" "objdump" []
    "Print the data and tags of every object.")
  have hs₂ := hgroup.inked_functionMade hs₁ (show V.child "objdump" from hV rfl) [] "Print the data and tags of every object."
  refine .step (createFunction_apply _ _ _ _ _ _) ?_
  generalize functionMade s₁ s.nodes.size "objdump" "objdump" [] "Print the data and tags of every object." = s₂
    at hdrafted hspares₂ hs₂ ⊢
  refine .step (score_apply _ _ _) ?_
  obtain ⟨M₁, hM₁, hplayer, hs₃⟩ := hs₂.mint .player "obj_id" (hs₂.sane.rooted.isOwner s₁.nodes.size) (List.forall_mem_nil _)
  have hfn : s.nodes.size ≤ s₁.nodes.size := hspares.size
  have hopen : Open (minted s₂) s₁.nodes.size { entry := s₁.nodes.size + 1, current := s₁.nodes.size + 1 } :=
    (hdrafted.spares (spares_minted _ s₂) hdrafted.entry.lt).opened
  replace hspares₂ := hspares₂.trans (spares_minted _ s₂)
  have hid : nextPlayer s₂ s₁.nodes.size "obj_id" ∈ M₁ ∧ Covers M₁ s₂.objective := by
    rw [show s₂.objective = s.objective from hspares₂.objective]
    exact ⟨hplayer, hobjective.mono hM₁⟩
  have hsame : (minted s₂).objective = s₂.objective := rfl
  generalize minted s₂ = s₃ at hopen hspares₂ hs₃ hsame ⊢
  generalize nextPlayer s₂ s₁.nodes.size "obj_id" = player at hid ⊢
  generalize s₂.objective = objective at hid hsame ⊢
  -- Everything is added at cursors of functions made just now.
  refine .bind (runs_add hopen hs₃ (hfn.trans (Nat.le_succ _)) rfl ?_) ?_
  · simp [Draws, namesIn, Content.names]
  rintro _ s₄ ⟨hopen₄, hspares₄, hs₄⟩
  refine .bind (runs_addChecked hopen₄ hs₄ (hfn.trans (Nat.le_succ _)) (move_one _) ?_) ?_
  · simp [Draws, scoreInstruction, namesIn, hid]
  rintro _ s₅ ⟨hopen₅, hspares₅, hs₅⟩
  obtain ⟨body, s₆, hloop, hspares₆, hbody, ⟨g, hopenBody, hg⟩, g', hopenNext, hg'⟩ :=
    hopen₅.looped hfn (hfn.trans (Nat.le_succ _)) (.compare ⟨.sym player, objective⟩ "<=" o.counter)
  obtain ⟨M₂, hM₂, hs₆⟩ := hopen₅.inked_loop hV hs₅
    (by rw [hspares₅.objective, hspares₄.objective, hsame]; exact hid.2)
    (by simp [Condition.compare, hid, hcounter.1.mono hM₁, hcounter.2.mono hM₁]) hloop
  have hid₂ := hid.imp (fun h ↦ hM₂ h) (·.mono hM₂)
  have hsize : s.nodes.size ≤ s₅.nodes.size := ((hspares₂.size.trans hspares₄.size).trans hspares₅.size)
  refine .step hloop ?_
  refine .bind (Q := fun _ s' ↦ Open s' body g ∧ Spares s₅.nodes.size s₆ s' ∧ Inked V M₂ s') ?_ ?_
  · refine .bind (runs_addChecked hopenBody hs₆ hg rfl ?_) ?_
    · exact draws_scoreToScore hid₂ (harg.imp (·.mono (hM₁.trans hM₂)) (·.mono (hM₁.trans hM₂)))
    rintro _ s' ⟨hopen', hspares', hs'⟩
    refine .step (function_apply _ _) (.step (path_apply _ _) ?_)
    obtain ⟨s'', hadd, hopen'', hspares'', hs''⟩ := hopen'.added hs' hg
      (show Draws M₂ [.call ⟨_, none⟩] by simp [Draws, namesIn])
    exact ⟨(), s'', hadd, hopen'', hspares'.trans hspares'', hs''⟩
  rintro _ s₇ ⟨hopen₇, hspares₇, hs₇⟩
  refine .bind (runs_add hopen₇ hs₇ hg rfl ?_) ?_
  · simp [Draws, namesIn, Content.names, Slot.onEntity, hid₂, hM₂ (hM₁ hfetched)]
  rintro _ s₈ ⟨hopen₈, hspares₈, hs₈⟩
  refine .bind (runs_addChecked hopen₈ hs₈ hg (addConst_one _) ?_) ?_
  · simp [Draws, scoreInstruction, namesIn, hid₂]
  rintro _ s₉ ⟨hopen₉, hspares₉, hs₉⟩
  obtain ⟨s₁₀, hfinish, hspares₁₀⟩ := finish_spares hopen₉.lt hopen₉.role hopen₉.current_lt ⟨hbody, hg⟩
  have hs₁₀ := hs₉.finish ⟨_, hopen₉.role⟩ hfinish
  refine .step hfinish ?_
  have hrest := ((hspares₇.trans hspares₈).trans hspares₉).trans hspares₁₀
  have hrole := (hrest.role hopen₅.lt).trans hopenNext.role
  obtain ⟨s₁₁, hlast, hspares₁₁⟩ := finish_spares (N := s.nodes.size) (hopenNext.lt.trans_le hrest.size) hrole
    (hopenNext.current_lt.trans_le hrest.size) ⟨hfn, hsize.trans hg'⟩
  have hs₁₁ := hs₁₀.finish ⟨_, hrole⟩ hlast
  exact ⟨(), s₁₁, hlast, ((((hspares₂.trans hspares₄).trans hspares₅).trans hspares₆).trans (hrest.mono hsize)).trans
    hspares₁₁, M₂, hM₁.trans hM₂, hs₁₁⟩

/-- A score of a new player, counted in an objective. -/
def IsScore (v : Score) (player : String) (objective : Symbol) : Prop :=
  ∃ p : Symbol, v = ⟨.sym p, .sym objective⟩ ∧ p.kind = .player ∧ p.text = player

/-- The registers of the library were made. -/
structure Equips (M : Set Symbol) (r : Registers) : Prop where
  arg : Covers M r.arg.player ∧ Covers M r.arg.objective
  ret : Covers M r.ret.player ∧ Covers M r.ret.objective

/-- A graph that the library was put into. -/
structure Houses (s : Session) (l : Library) (temp : Symbol) : Prop where
  stocks : Stocks s [l.name] l.toRegisters l.object temp
  racks : Racks s [l.name] l.stack
  objective : l.objective.kind = .objective ∧ s.objective = .sym l.objective
  arg : IsScore l.arg "arg" l.objective
  ret : IsScore l.ret "ret" l.objective

theorem installParts_spec (hV : V.Usual) (hs : Inked V M s) (hroot : IsPlace s r.root [r.name])
    (hreturns : s.returns = some (.score r.ret)) (hobjectives : ∀ v ∈ [r.objective, r.tempObjective], v ∈ M)
    (hequips : Equips M r) (hobjective : Covers M s.objective) (greeting : Bool) (text : Option String) :
    Runs (do
      let load ← Graph.createFunction r.root "load" "load" [loadTag] "Create the library objectives."
      r.fillLoad load "create the objectives" [r.objective, r.tempObjective] text
      let object ← installObjects r greeting
      let stack ← installStacks r
      installDump r object
      return { toRegisters := r, object, stack : Library }) s fun l s' ↦
        l.toRegisters = r ∧ s'.objective = s.objective ∧ IsPlace s' r.root [r.name] ∧ Racks s' [r.name] l.stack ∧
          (∃ temp, Stocks s' [r.name] r l.object temp) ∧ ∃ M', M ⊆ M' ∧ Inked V M' s' ∧ l.stack.storage ∈ M' := by
  have hload := drafted_functionMade hroot.isAt.1 "load" "load" [loadTag] "Create the library objectives."
  have hspares₁ := spares_functionMade le_rfl hroot.isAt.1 "load" "load" [loadTag] "Create the library objectives."
  have hs₁ := hroot.inked_functionMade hs (show V.child "load" from hV rfl) [loadTag] "Create the library objectives."
  refine .step (createFunction_apply _ _ _ _ _ _) ?_
  generalize functionMade s r.root "load" "load" [loadTag] "Create the library objectives." = s₁ at hload hspares₁ hs₁ ⊢
  refine .bind (fillLoad_spec hload hs₁ r _ hobjectives _) ?_
  rintro _ s₂ ⟨hedits, hs₂⟩
  have hspares₂ := hspares₁.trans hedits.toSpares
  have hroot₂ := hroot.spares hspares₂
  have hobjective₂ : Covers M s₂.objective := hspares₂.objective ▸ hobjective
  refine .bind (installObjects_spec hV hs₂ hroot₂ (hspares₂.returns.trans hreturns) hobjective₂ hequips.arg hequips.ret
    greeting) ?_
  rintro o s₃ ⟨hspares₃, -, ⟨temp, hstocks⟩, M₁, hM₁, hs₃, hfetched, hcounter⟩
  have hroot₃ := hroot₂.spares hspares₃
  refine .bind (installStacks_spec hV hs₃ hroot₃) ?_
  rintro stack s₄ ⟨hspares₄, hracks, M₂, hM₂, hs₄, hstorage⟩
  have hM := hM₁.trans hM₂
  refine .bind (installDump_spec hV hs₄ (hroot₃.spares hspares₄) ?_ (hequips.arg.imp (·.mono hM) (·.mono hM)) (hM₂ hfetched)
    (hcounter.imp (·.mono hM₂) (·.mono hM₂))) ?_
  · rw [hspares₄.objective, hspares₃.objective]
    exact hobjective₂.mono hM
  rintro _ s₅ ⟨hspares₅, M₃, hM₃, hs₅⟩
  have hspares := ((hspares₂.next hspares₃).next hspares₄).next hspares₅
  exact .pure ⟨rfl, hspares.objective, hroot.spares hspares, hracks.spares hspares₅,
    ⟨temp, hstocks.spares (hspares₄.next hspares₅)⟩, M₃, hM.trans hM₃, hs₅, hM₃ hstorage⟩

theorem isPlace_withRoot (s : Session) (name : String) : IsPlace (withRoot s name) s.nodes.size [name] := by
  refine ⟨⟨by simp, ?_⟩, ?_⟩ <;> rw [node_withRoot, if_pos rfl]
  rfl

/-- The library is put into an empty graph below a root, and all that it names was made with it. -/
theorem install_spec (hV : V.Usual) (hs : s.nodes = #[]) (options : Options) (hname : V.root options.name) :
    Runs (install options) s fun l s' ↦ l.root = 0 ∧ l.name = options.name ∧ IsPlace s' 0 [options.name] ∧
      (∃ temp, Houses s' l temp) ∧ ∃ M, Inked V M s' ∧ Equips M l.toRegisters ∧ l.stack.storage ∈ M := by
  have hroot := isPlace_withRoot s options.name
  refine .step (show Graph.root options.name s = (.ok s.nodes.size, withRoot s options.name) from rfl) ?_
  rw [show s.nodes.size = 0 by simp [hs]] at hroot ⊢
  have hs₁ := inked_root hs hname
  have howner := hs₁.sane.rooted.isOwner 0
  refine .step (path_apply _ _) ?_
  obtain ⟨M₁, -, hobjective, hs₁⟩ := hs₁.mint .objective options.objective howner (List.forall_mem_nil _)
  obtain ⟨M₂, hM₂, htemp, hs₁⟩ := hs₁.mint .objective "temp" howner (List.forall_mem_nil _)
  obtain ⟨M₃, hM₃, harg, hs₁⟩ := hs₁.mint .player "arg" howner (List.forall_mem_nil _)
  obtain ⟨M₄, hM₄, hret, hs₁⟩ := hs₁.mint .player "ret" howner (List.forall_mem_nil _)
  have hmain := hM₄ (hM₃ (hM₂ hobjective))
  refine .step symbol_apply (.step symbol_apply (.step (modify_apply _ _) ?_))
  refine .step (score_apply _ _ _) (.step (score_apply _ _ _) (.step (modify_apply _ _) ?_))
  refine Runs.imp (installParts_spec (r := ⟨0, options.name, _, _, _, _⟩) (M := M₄) hV ?_ ?_ rfl ?_ ?_ ?_ _ _) ?_
  · exact hs₁.note rfl rfl rfl
  · exact ⟨hroot.isAt, hroot.container⟩
  · simpa using ⟨hmain, hM₄ (hM₃ htemp)⟩
  · exact ⟨⟨hM₄ harg, hmain⟩, hret, hmain⟩
  · exact hmain
  rintro ⟨r, o, stack⟩ s' ⟨hr, hsame, hplace, hracks, ⟨temp, hstocks⟩, M', hM, hs', hstorage⟩
  obtain rfl : r = _ := hr
  exact ⟨rfl, rfl, hplace, ⟨temp, hstocks, hracks, ⟨rfl, hsame⟩, ⟨_, rfl, rfl, rfl⟩, _, rfl, rfl, rfl⟩,
    M', hs', ⟨⟨hM (hM₄ harg), hM hmain⟩, hM hret, hM hmain⟩, hstorage⟩

end CommandPack.Library
