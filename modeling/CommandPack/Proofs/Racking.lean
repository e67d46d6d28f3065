import Mathlib
import CommandPack.Proofs.Memoizing
import CommandPack.Proofs.Stacking
import CommandPack.Proofs.Stocking

/-!
The stacks of the library in listings. A function for an operation on a stack is made when it is asked for, and
found again when it is asked for once more; it is made of the commands of the operation, so stacks that are
used by such functions alone are stacks.
-/

namespace CommandPack.Graph

open Stateful

variable {description entryName name : String} {tags : List Path} {s : Session} {t : Nat}

theorem parent_recast {k : Nat} (hk : k < s.nodes.size) (role : Role) (id : Nat) :
    ((recast s k role).node id).parent = (s.node id).parent := by
  rw [node_recast hk]

def drawn (s : Session) (t : Nat) (name description : String) (cmds : List Instruction) : Session :=
  closed (filled (functionMade s t name name [] description) s.nodes.size cmds) s.nodes.size

section Drawn

variable {name description : String} {cmds : List Instruction}

@[simp] theorem size_drawn : (drawn s t name description cmds).nodes.size = s.nodes.size + 2 := by
  simp [drawn, closed, filled]

@[simp] theorem toScratch_drawn : (drawn s t name description cmds).toScratch = s.toScratch := by
  simp [drawn, closed, filled, functionMade]

variable (ht : t < s.nodes.size)

include ht

theorem path_drawn (id : Nat) : ((drawn s t name description cmds).node id).path =
    if id = s.nodes.size then (s.node t).path ++ [name]
    else if id = s.nodes.size + 1 then (s.node t).path ++ [name, name] else (s.node id).path := by
  rw [drawn, closed, path_recast (by simp [filled]), filled, path_recast (by simp), path_functionMade ht]

theorem parent_drawn (id : Nat) : ((drawn s t name description cmds).node id).parent =
    if id = s.nodes.size then some t else if id = s.nodes.size + 1 then some s.nodes.size else (s.node id).parent := by
  rw [drawn, closed, parent_recast (by simp [filled]), filled, parent_recast (by simp), parent_functionMade ht]

theorem role_drawn (id : Nat) : ((drawn s t name description cmds).node id).role =
    if id = s.nodes.size then .function { entry := s.nodes.size + 1, current := s.nodes.size + 1, ended := true }
    else if id = s.nodes.size + 1 then .block { description, commands := cmds.toArray } else (s.node id).role := by
  have hdrafted := drafted_functionMade ht name name [] description
  have hblock : blockOf ((functionMade s t name name [] description).node (s.nodes.size + 1)) = { description } := by
    rw [blockOf, role_functionMade ht, if_neg (by omega), if_pos rfl]
  rw [drawn, closed, role_recast (by simp [filled]), (hdrafted.filled cmds).functionOf_eq, filled, role_recast (by simp),
    role_functionMade ht, hblock]
  by_cases hid : id = s.nodes.size
  · simp [hid]
  · by_cases hid' : id = s.nodes.size + 1
    · simp [hid', extended]
    · simp [hid, hid']

theorem Rooted.drawn {V : Vocabulary} (h : Rooted V s) (hcontainer : (s.node t).isContainer = true) (hname : V.child name) :
    Rooted V (drawn s t name description cmds) := by
  have hdrafted := drafted_functionMade ht name name [] description
  have hfilled := hdrafted.filled cmds
  refine ((h.functionMade ht hcontainer hname hname [] description).recast hdrafted.entry.lt ?_).recast hfilled.lt ?_
  · exact hdrafted.entry.notContainer.symm
  · exact (IsFunction.container ⟨_, hfilled.role⟩).symm

end Drawn

end CommandPack.Graph

namespace CommandPack.Stacks

open CommandPack.Graph Stateful

variable {s s' : Session} {fn t : Nat} {k : Stacks} {r : Registers} {n : Nat} {op : StackOperation} {root : Path}

def actionOf : StackOperation → Action
  | .push => .push
  | .pop => .pop
  | .peek => .peek

def instructions (k : Stacks) (r : Registers) (n : Nat) : StackOperation → List Instruction
  | .push => [.literal s!"data modify storage %s stack{(n : Int)} append value 0" [.sym k.storage],
      Transfer.scoreToSlot r.arg (k.top n .int) 1]
  | .pop => [Transfer.slotToScore (k.top n .int) r.ret 1,
      .literal s!"data remove storage %s stack{(n : Int)}[-1]" [.sym k.storage]]
  | .peek => [Transfer.slotToScore (k.top n .int) r.ret 1]

theorem fill_apply (h : Drafted s fn []) (k : Stacks) (r : Registers) (n : Nat) (op : StackOperation) :
    (actionOf op).fill k r fn n s = (.ok (), filled s fn (instructions k r n op)) := by
  cases op with
  | push =>
    have hadded := h.filled [.literal s!"data modify storage %s stack{(n : Int)} append value 0" [.sym k.storage]]
    have hmove : Transfer.move (.score r.arg) (.slot (k.top n .int)) = pure [Transfer.scoreToSlot r.arg (k.top n .int) 1] := rfl
    simp only [actionOf, Action.fill, bind_apply, h.add_apply, andThen_ok]
    rw [hadded.move_apply hmove, h.filled_filled]
    rfl
  | pop =>
    have hmoved := h.filled [Transfer.slotToScore (k.top n .int) r.ret 1]
    have hmove : Transfer.move (.slot (k.top n .int)) (.score r.ret) = pure [Transfer.slotToScore (k.top n .int) r.ret 1] := rfl
    simp only [actionOf, Action.fill, bind_apply, h.move_apply hmove, andThen_ok]
    rw [hmoved.add_apply, h.filled_filled]
    rfl
  | peek => exact h.move_apply rfl

def instanceKey (n : Nat) : String := argsKey [("stack", .int n)]

theorem instanceKey_injective : Function.Injective instanceKey := by
  intro a b h
  have hclear (n : Nat) : ∀ e ∈ [("stack", Datum.int n)], Clear e := by
    simpa using (⟨by simp, trivial⟩ : Clear ("stack", .int n))
  simpa using (argsKey_inj (hclear a) (hclear b)).1 h

/-- The graph in which the function of an operation was made and noted in its template. -/
def granted (s : Session) (k : Stacks) (r : Registers) (n : Nat) (op : StackOperation) : Session :=
  let t := (actionOf op).template k
  recast (drawn s t (stackKey n) ((actionOf op).description n) (instructions k r n op)) t
    (.template (instances (s.node t) ++ [(instanceKey n, s.nodes.size)]))

theorem get_apply_known (h : (instances (s.node ((actionOf op).template k))).lookup (instanceKey n) = some fn) :
    k.get r (actionOf op) n s = (.ok fn, s) :=
  instantiate_known h

theorem get_apply_new (ht : (actionOf op).template k < s.nodes.size)
    (h : (instances (s.node ((actionOf op).template k))).lookup (instanceKey n) = none) :
    k.get r (actionOf op) n s = (.ok s.nodes.size, granted s k r n op) := by
  let t := (actionOf op).template k
  let s₁ := functionMade s t (stackKey n) (stackKey n) [] ((actionOf op).description n)
  have hdrafted : Drafted s₁ s.nodes.size [] := drafted_functionMade ht _ _ _ _
  have hfilled := hdrafted.filled (instructions k r n op)
  have hpositive : ¬ ((n : Int) < 0) := by omega
  have hbuild : (do
      if (n : Int) < 0 then
        throw (.invariant
          s!"stack template {(← Graph.node t).name} needs a non-negative int stack argument, got {(n : Int)}")
      let fn ← Graph.createFunction t s!"stack{(n : Int)}" s!"stack{(n : Int)}" [] ((actionOf op).description n)
      (actionOf op).fill k r fn n
      return some fn : Build (Option NodeId)) s = (.ok (some s.nodes.size), filled s₁ s.nodes.size (instructions k r n op)) := by
    simp only [hpositive, if_false, bind_apply, createFunction_apply, andThen_ok]
    change andThen _ ((actionOf op).fill k r s.nodes.size n s₁) = _
    rw [fill_apply hdrafted, andThen_ok, pure_apply]
  have hparent : ((filled s₁ s.nodes.size (instructions k r n op)).node s.nodes.size).parent = some t := by
    rw [filled, parent_recast hdrafted.entry.lt, parent_functionMade ht, if_pos rfl]
  have hrole : ((closed (filled s₁ s.nodes.size (instructions k r n op)) s.nodes.size).node t).role = (s.node t).role := by
    change ((drawn s t (stackKey n) ((actionOf op).description n) (instructions k r n op)).node t).role = _
    rw [role_drawn ht, if_neg (Nat.ne_of_lt ht), if_neg (Nat.ne_of_lt (Nat.lt_succ_of_lt ht))]
  exact instantiate_new h hbuild hparent hfilled.finish_apply hrole

theorem size_granted (s : Session) (k : Stacks) (r : Registers) (n : Nat) (op : StackOperation) :
    (granted s k r n op).nodes.size = s.nodes.size + 2 := by
  rw [granted, size_recast, size_drawn]

section Granted

variable (ht : (actionOf op).template k < s.nodes.size)

include ht

theorem lt_drawn {name description : String} {cmds : List Instruction} :
    (actionOf op).template k < (drawn s ((actionOf op).template k) name description cmds).nodes.size := by
  rw [size_drawn]
  exact Nat.lt_add_right 2 ht

theorem path_granted (id : Nat) : ((granted s k r n op).node id).path =
    if id = s.nodes.size then (s.node ((actionOf op).template k)).path ++ [stackKey n]
    else if id = s.nodes.size + 1 then (s.node ((actionOf op).template k)).path ++ [stackKey n, stackKey n]
    else (s.node id).path := by
  rw [granted, path_recast (lt_drawn ht), path_drawn ht]

theorem parent_granted (id : Nat) : ((granted s k r n op).node id).parent =
    if id = s.nodes.size then some ((actionOf op).template k) else if id = s.nodes.size + 1 then some s.nodes.size
    else (s.node id).parent := by
  rw [granted, parent_recast (lt_drawn ht), parent_drawn ht]

theorem role_granted (id : Nat) : ((granted s k r n op).node id).role =
    if id = (actionOf op).template k then
      .template (instances (s.node ((actionOf op).template k)) ++ [(instanceKey n, s.nodes.size)])
    else if id = s.nodes.size then .function { entry := s.nodes.size + 1, current := s.nodes.size + 1, ended := true }
    else if id = s.nodes.size + 1 then
      .block { description := (actionOf op).description n, commands := (instructions k r n op).toArray }
    else (s.node id).role := by
  rw [granted, role_recast (lt_drawn ht), role_drawn ht]

theorem rooted_granted (h : Rooted V s) (hrole : (s.node ((actionOf op).template k)).role = .template is)
    (hname : V.child (stackKey n)) : Rooted V (granted s k r n op) := by
  have hcontainer : (s.node ((actionOf op).template k)).isContainer = true := by rw [Node.isContainer, hrole]
  refine (h.drawn ht hcontainer hname).recast (lt_drawn ht) ?_
  rw [Node.isContainer, role_drawn ht, if_neg (Nat.ne_of_lt ht), if_neg (Nat.ne_of_lt (Nat.lt_succ_of_lt ht)), hrole]

variable {is : List (String × NodeId)} (hrole : (s.node ((actionOf op).template k)).role = .template is)

include hrole

theorem isContainer_granted {id : Nat} (hid : id < s.nodes.size) :
    ((granted s k r n op).node id).isContainer = (s.node id).isContainer := by
  rw [Node.isContainer, Node.isContainer, role_granted ht]
  by_cases heq : id = (actionOf op).template k
  · rw [if_pos heq, heq, hrole]
  · have hid' : id ≠ s.nodes.size + 1 := by omega
    rw [if_neg heq, if_neg hid.ne, if_neg hid']

theorem commandsAt_granted (id : Nat) :
    commandsAt (granted s k r n op) id = if id = s.nodes.size + 1 then instructions k r n op else commandsAt s id := by
  rw [commandsAt, commandsAt, blockOf, role_granted ht]
  by_cases heq : id = (actionOf op).template k
  · subst heq
    rw [if_pos rfl, if_neg (Nat.ne_of_lt (Nat.lt_succ_of_lt ht)), blockOf, hrole]
  · rw [if_neg heq]
    by_cases hid : id = s.nodes.size
    · subst hid
      rw [if_pos rfl, if_neg (by omega), node_of_size_le le_rfl]
      rfl
    · rw [if_neg hid]
      by_cases hid' : id = s.nodes.size + 1
      · rw [if_pos hid', if_pos hid']
      · rw [if_neg hid', if_neg hid', blockOf]

end Granted

def path (root : Path) (op : StackOperation) (n : Nat) : Path :=
  root ++ ["stack", Library.stackWord (actionOf op), stackKey n, stackKey n]

/-- A function does an operation on a stack. -/
structure Makes (s : Session) (root : Path) (k : Stacks) (r : Registers) (op : StackOperation) (n fn : Nat) : Prop where
  entry : ∃ f, (s.node fn).role = .function f ∧ f.entry = fn + 1
  reads : Reads s (fn + 1) (instructions k r n op) none
  path : (s.node (fn + 1)).path = path root op n

/-- A graph that has the templates of stacks and gave functions for requests. The symbols and roots are those of a
draft. -/
structure Offers (V : Vocabulary) (w : Draft) (root : Path) (k : Stacks) (r : Registers)
    (rs : List ((StackOperation × Nat) × NodeId)) (s : Session) : Prop where
  scratch : s.toScratch = w.graph.toScratch
  rooted : Rooted V s
  isRoot {id : Nat} (h : IsRoot s id) : IsRoot w.graph id ∧ (s.node id).isContainer = (w.graph.node id).isContainer
  covers (id : Nat) : ∀ i ∈ commandsAt s id, ∀ name ∈ namesIn i, Covers w.symbols name
  isAt (op : StackOperation) : IsAt s ((actionOf op).template k) (root ++ ["stack", Library.stackWord (actionOf op)])
  template (op : StackOperation) : ∃ is, (s.node ((actionOf op).template k)).role = .template is ∧
    ∀ key fn, (key, fn) ∈ is → ∃ n, key = instanceKey n ∧ Makes s root k r op n fn
  makes {op : StackOperation} {n : Nat} {fn : NodeId} (h : ((op, n), fn) ∈ rs) : Makes s root k r op n fn

variable {V : Vocabulary} {w : Draft} {rs : List ((StackOperation × Nat) × NodeId)}

theorem Makes.granted (ht : (actionOf op).template k < s.nodes.size) {is : List (String × NodeId)}
    (hrole : (s.node ((actionOf op).template k)).role = .template is) {op' : StackOperation} {n' : Nat}
    (h : Makes s root k r op' n' fn) : Makes (granted s k r n op) root k r op' n' fn := by
  obtain ⟨f, hf, hentry⟩ := h.entry
  obtain ⟨b, hblock, hcmds⟩ := h.reads.block
  have hlt := h.reads.lt
  have hfn : fn ≠ (actionOf op).template k := by
    rintro rfl
    rw [hf] at hrole
    nomatch hrole
  have hne : fn + 1 ≠ (actionOf op).template k := by
    intro heq
    rw [← heq, hblock] at hrole
    nomatch hrole
  refine ⟨⟨f, ?_, hentry⟩, ⟨?_, b, ?_, hcmds⟩, ?_⟩
  · rw [role_granted ht, if_neg hfn, if_neg (by omega), if_neg (by omega), hf]
  · rw [size_granted]
    omega
  · rw [role_granted ht, if_neg hne, if_neg hlt.ne, if_neg (by omega), hblock]
  · rw [path_granted ht, if_neg hlt.ne, if_neg (by omega), h.path]

theorem makes_granted (hat : IsAt s ((actionOf op).template k) (root ++ ["stack", Library.stackWord (actionOf op)])) :
    Makes (granted s k r n op) root k r op n s.nodes.size := by
  obtain ⟨ht, hpath⟩ := hat
  have hne : s.nodes.size + 1 ≠ (actionOf op).template k := (Nat.ne_of_lt (Nat.lt_succ_of_lt ht)).symm
  have hrole : ((granted s k r n op).node (s.nodes.size + 1)).role =
      .block { description := (actionOf op).description n, commands := (instructions k r n op).toArray } := by
    rw [role_granted ht, if_neg hne, if_neg (by omega), if_pos rfl]
  refine ⟨⟨{ entry := s.nodes.size + 1, current := s.nodes.size + 1, ended := true }, ?_, rfl⟩, ⟨?_, _, hrole, rfl, rfl⟩, ?_⟩
  · rw [role_granted ht, if_neg (Nat.ne_of_lt ht).symm, if_pos rfl]
  · rw [size_granted]
    omega
  · rw [path_granted ht, if_neg (by omega), if_pos rfl, hpath, path]
    simp

theorem covers_instructions {M : Set Symbol} (hstorage : k.storage ∈ M) (harg : Covers M r.arg.player ∧ Covers M r.arg.objective)
    (hret : Covers M r.ret.player ∧ Covers M r.ret.objective) (op : StackOperation) :
    ∀ i ∈ instructions k r n op, ∀ name ∈ namesIn i, Covers M name := by
  have htop : Covers M (k.top n .int).target := hstorage
  have hsym : Covers M (.sym k.storage) := hstorage
  cases op with
  | push => simp [instructions, Transfer.scoreToSlot, namesIn, htop, hsym, harg]
  | pop => simp [instructions, Transfer.slotToScore, namesIn, htop, hsym, hret]
  | peek => simp [instructions, Transfer.slotToScore, namesIn, htop, hret]

theorem Offers.granted (h : Offers V w root k r rs s) (hV : ∀ n, V.child (stackKey n)) (n : Nat)
    (hcovers : ∀ i ∈ instructions k r n op, ∀ name ∈ namesIn i, Covers w.symbols name) :
    Offers V w root k r (((op, n), s.nodes.size) :: rs) (granted s k r n op) := by
  have hat := h.isAt op
  have ht := hat.1
  obtain ⟨is, hrole, his⟩ := h.template op
  have hnew := makes_granted (k := k) (r := r) (n := n) hat
  refine ⟨?_, rooted_granted ht h.rooted hrole (hV n), fun {id} hroot ↦ ?_, fun id ↦ ?_, fun op' ↦ ?_, fun op' ↦ ?_,
    fun {op' n' fn} hmem ↦ ?_⟩
  · rw [Stacks.granted, toScratch_recast, toScratch_drawn]
    exact h.scratch
  · -- the new nodes have parents
    have hparent := hroot.2
    rw [parent_granted ht] at hparent
    split at hparent
    · cases hparent
    split at hparent
    · cases hparent
    rename_i hid hid'
    have hlt := hroot.1
    rw [size_granted] at hlt
    obtain ⟨hold, hcontainer⟩ := h.isRoot ⟨by omega, hparent⟩
    exact ⟨hold, (isContainer_granted ht hrole (by omega)).trans hcontainer⟩
  · intro i hi
    rw [commandsAt_granted ht hrole] at hi
    split at hi
    · exact hcovers i hi
    · exact h.covers id i hi
  · obtain ⟨hlt, hpath⟩ := h.isAt op'
    refine ⟨?_, ?_⟩
    · rw [size_granted]
      exact Nat.lt_add_right 2 hlt
    · rw [path_granted ht, if_neg (Nat.ne_of_lt hlt), if_neg (Nat.ne_of_lt (Nat.lt_succ_of_lt hlt)), hpath]
  · by_cases hop : op' = op
    · subst hop
      refine ⟨is ++ [(instanceKey n, s.nodes.size)], ?_, fun key fn hmem ↦ ?_⟩
      · rw [role_granted ht, if_pos rfl, instances, hrole]
      · rcases List.mem_append.1 hmem with hmem | hmem
        · obtain ⟨n', hkey, hmakes⟩ := his key fn hmem
          exact ⟨n', hkey, hmakes.granted ht hrole⟩
        · cases List.mem_singleton.1 hmem
          exact ⟨n, rfl, hnew⟩
    · -- another template, which stands elsewhere
      obtain ⟨hlt, hpath⟩ := h.isAt op'
      obtain ⟨is', hrole', his'⟩ := h.template op'
      have hne : (actionOf op').template k ≠ (actionOf op).template k := by
        intro heq
        rw [heq, hat.2] at hpath
        revert hop hpath
        cases op <;> cases op' <;> simp [actionOf, Library.stackWord]
      refine ⟨is', ?_, fun key fn hmem ↦ ?_⟩
      · rw [role_granted ht, if_neg hne, if_neg (Nat.ne_of_lt hlt), if_neg (Nat.ne_of_lt (Nat.lt_succ_of_lt hlt)), hrole']
      · obtain ⟨n', hkey, hmakes⟩ := his' key fn hmem
        exact ⟨n', hkey, hmakes.granted ht hrole⟩
  · rcases List.mem_cons.1 hmem with heq | hmem
    · cases heq
      exact hnew
    · exact (h.makes hmem).granted ht hrole

theorem Offers.get (h : Offers V w root k r rs s) (hV : ∀ n, V.child (stackKey n)) (op : StackOperation) (n : Nat)
    (hcovers : ∀ i ∈ instructions k r n op, ∀ name ∈ namesIn i, Covers w.symbols name) :
    ∃ fn s', k.get r (actionOf op) n s = (.ok fn, s') ∧ Offers V w root k r (((op, n), fn) :: rs) s' := by
  cases hlookup : (instances (s.node ((actionOf op).template k))).lookup (instanceKey n) with
  | none => exact ⟨_, _, get_apply_new (h.isAt op).1 hlookup, h.granted hV n hcovers⟩
  | some fn =>
    refine ⟨fn, s, get_apply_known hlookup, ⟨h.scratch, h.rooted, h.isRoot, h.covers, h.isAt, h.template, fun hmem ↦ ?_⟩⟩
    rcases List.mem_cons.1 hmem with heq | hmem
    · -- the function that was found was made for the same stack
      cases heq
      obtain ⟨is, hrole, his⟩ := h.template op
      rw [instances, hrole] at hlookup
      obtain ⟨n', hkey, hmakes⟩ := his _ _ (mem_of_lookup hlookup)
      obtain rfl := instanceKey_injective hkey
      exact hmakes
    · exact h.makes hmem

def getAll (k : Stacks) (r : Registers) (rs : List (StackOperation × Nat)) : Build (List NodeId) :=
  rs.mapM fun q ↦ k.get r (actionOf q.1) q.2

theorem Offers.getAll (h : Offers V w root k r rs s) (hV : ∀ n, V.child (stackKey n))
    (hcovers : ∀ op n, ∀ i ∈ instructions k r n op, ∀ name ∈ namesIn i, Covers w.symbols name)
    (qs : List (StackOperation × Nat)) :
    ∃ fns s', k.getAll r qs s = (.ok fns, s') ∧ fns.length = qs.length ∧
      Offers V w root k r ((qs.zip fns).reverse ++ rs) s' := by
  induction qs generalizing rs s with
  | nil => exact ⟨[], s, rfl, rfl, h⟩
  | cons q qs ih =>
    obtain ⟨op, n⟩ := q
    obtain ⟨fn, s₁, hget, h₁⟩ := h.get hV op n (hcovers op n)
    obtain ⟨fns, s₂, hall, hlength, h₂⟩ := ih h₁
    refine ⟨fn :: fns, s₂, ?_, by rw [List.length_cons, List.length_cons, hlength], by simpa using h₂⟩
    rw [Stacks.getAll] at hall
    rw [Stacks.getAll, List.mapM_cons, bind_apply, hget, andThen_ok, bind_apply, hall, andThen_ok, pure_apply]

theorem unmarked_stackKey (n : Nat) : '%' ∉ (stackKey n).toList := by
  intro hc
  have hlabel := StackNames.isLabel_stackKey n
  rw [IsLabel, Bool.and_eq_true, List.all_eq_true] at hlabel
  exact absurd (hlabel.2 _ hc) (by decide)

open Instruction Machine

variable {table : SymbolTable}

def names (table : SymbolTable) (k : Stacks) (r : Registers) : StackNames where
  storage := (Name.sym k.storage).textIn table
  objective := (Name.sym r.objective).textIn table
  arg := r.arg.player.textIn table
  ret := r.ret.player.textIn table

theorem formatScale_one : Transfer.formatScale 1 = "1" := by decide +kernel

theorem location_top (k : Stacks) (n : Nat) (type : DataType) :
    Transfer.location (k.top n type) = "storage %s " ++ (stackKey n ++ "[-1]") := by
  have hunmarked : '%' ∉ (stackKey n ++ "[-1]").toList := by
    rw [String.toList_append, List.mem_append, not_or]
    exact ⟨unmarked_stackKey n, by decide⟩
  change "storage" ++ " %s " ++ escapeTemplate (stackKey n ++ "[-1]") = _
  rw [escapeTemplate_plain hunmarked]
  rfl

section Texts

variable (table : SymbolTable) (k : Stacks) (n : Nat)

theorem spells_grow : Spells table (.literal s!"data modify storage %s stack{(n : Int)} append value 0" [.sym k.storage])
    (growLine ((Name.sym k.storage).textIn table) (stackKey n)) := by
  have htemplate : s!"data modify storage %s stack{(n : Int)} append value 0" =
      Text.join " " ["data", "modify", "storage", "%s", stackKey n, "append", "value", "0"] := by
    refine String.toList_injective ?_
    change ("data modify storage %s stack" ++ toString n ++ " append value 0").toList = _
    simp [Text.join, String.intercalate_cons_cons, stackKey]
  rw [htemplate]
  exact spells_literal (fills_join [word "data", word "modify", word "storage", hole ((Name.sym k.storage).textIn table),
    word (stackKey n), word "append", word "value", word "0"] (by simp [unmarked_stackKey]))

theorem spells_drop : Spells table (.literal s!"data remove storage %s stack{(n : Int)}[-1]" [.sym k.storage])
    (dropLine ((Name.sym k.storage).textIn table) (stackKey n)) := by
  have htemplate : s!"data remove storage %s stack{(n : Int)}[-1]" =
      Text.join " " ["data", "remove", "storage", "%s", stackKey n ++ "[-1]"] := by
    refine String.toList_injective ?_
    change ("data remove storage %s stack" ++ toString n ++ "[-1]").toList = _
    simp [Text.join, String.intercalate_cons_cons, stackKey]
  rw [htemplate]
  exact spells_literal (fills_join [word "data", word "remove", word "storage", hole ((Name.sym k.storage).textIn table),
    word (stackKey n ++ "[-1]")] (by simp [unmarked_stackKey]))

theorem spells_place (v : Score) : Spells table (Transfer.scoreToSlot v (k.top n .int) 1)
    (placeLine ((Name.sym k.storage).textIn table) (stackKey n) (v.player.textIn table) (v.objective.textIn table)) := by
  have htemplate : Transfer.scoreToSlot v (k.top n .int) 1 = .literal (Text.join " " ["execute", "store", "result", "storage",
      "%s", stackKey n ++ "[-1]", "int", "1", "run", "scoreboard", "players", "get", "%s", "%s"])
      [.sym k.storage, v.player, v.objective] := by
    have htype : (k.top n .int).type.storage = "int" := rfl
    rw [Transfer.scoreToSlot, location_top, formatScale_one, htype]
    refine congrArg (Instruction.literal · _) (String.toList_injective ?_)
    simp [Text.join, String.intercalate_cons_cons]
  rw [htemplate]
  exact spells_literal (fills_join [word "execute", word "store", word "result", word "storage",
    hole ((Name.sym k.storage).textIn table), word (stackKey n ++ "[-1]"), word "int", word "1", word "run",
    word "scoreboard", word "players", word "get", hole (v.player.textIn table), hole (v.objective.textIn table)]
    (by simp [unmarked_stackKey]))

theorem spells_fetch (v : Score) : Spells table (Transfer.slotToScore (k.top n .int) v 1)
    (fetchLine ((Name.sym k.storage).textIn table) (stackKey n) (v.player.textIn table) (v.objective.textIn table)) := by
  have htemplate : Transfer.slotToScore (k.top n .int) v 1 = .literal (Text.join " " ["execute", "store", "result", "score",
      "%s", "%s", "run", "data", "get", "storage", "%s", stackKey n ++ "[-1]", "1"])
      [v.player, v.objective, .sym k.storage] := by
    rw [Transfer.slotToScore, location_top, formatScale_one]
    refine congrArg (Instruction.literal · _) (String.toList_injective ?_)
    simp [Text.join, String.intercalate_cons_cons]
  rw [htemplate]
  exact spells_literal (fills_join [word "execute", word "store", word "result", word "score", hole (v.player.textIn table),
    hole (v.objective.textIn table), word "run", word "data", word "get", word "storage",
    hole ((Name.sym k.storage).textIn table), word (stackKey n ++ "[-1]"), word "1"] (by simp [unmarked_stackKey]))

end Texts

theorem writes_instructions (harg : r.arg.objective = .sym r.objective) (hret : r.ret.objective = .sym r.objective) :
    Writes table (instructions k r n op) ((names table k r).lines n op) := by
  have hplace := spells_place table k n r.arg
  have hfetch := spells_fetch table k n r.ret
  rw [harg] at hplace
  rw [hret] at hfetch
  cases op with
  | push => exact .line (spells_grow table k n) (.line hplace .nil)
  | pop => exact .line hfetch (.line (spells_drop table k n) .nil)
  | peek => exact .line hfetch .nil

/-- The registers and the storage that the functions of stacks use. -/
structure Fitted (root : Path) (k : Stacks) (r : Registers) : Prop where
  storage : ∃ id, k.storage = ⟨id, .path, "", some (root ++ ["stack"]), []⟩
  objective : r.objective.kind = .objective
  arg : Library.IsScore r.arg "arg" r.objective
  ret : Library.IsScore r.ret "ret" r.objective
  root : ∀ name ∈ root, IsPlain name

theorem Fitted.isName_storage (h : Fitted root k r) (hn : Numbered V w.symbols) (hsteps : SymbolTable.Steps hn.pool {} table)
    (hstorage : Library.Minted w.symbols table (.sym k.storage)) : IsName ((Name.sym k.storage).textIn table) := by
  obtain ⟨id, hid⟩ := h.storage
  obtain ⟨hmem, text, htext⟩ := hstorage
  have hsymbol : hn.pool.symbol k.storage.id = k.storage := (hn.has hmem).symm
  obtain ⟨p, hp, rfl⟩ := hsteps.find?_path (by rw [hsymbol, hid]) rfl htext
  rw [hsymbol, hid] at hp
  cases hp
  rw [Name.textIn, htext]
  refine isName_joined (by simp) fun name hname ↦ ?_
  rcases List.mem_append.1 hname with hname | hname
  · exact h.root name hname
  · rw [List.mem_singleton.1 hname]
    rfl

theorem Fitted.valid (h : Fitted root k r) (hV : V.Restricted) (hn : Numbered V w.symbols)
    (hsteps : SymbolTable.Steps hn.pool {} table) (hknown : Known table (instructions k r n op))
    (hcovers : ∀ i ∈ instructions k r n op, ∀ name ∈ namesIn i, Covers w.symbols name) :
    (names table k r).Valid op := by
  have hminted {template : String} {args : List Name} (hi : .literal template args ∈ instructions k r n op) :
      ∀ name ∈ args, Library.Minted w.symbols table name := by
    intro name hmem
    refine ⟨hcovers _ hi name (by rwa [namesIn]), ?_⟩
    exact SymbolTable.knows_of_collect (fun v hv ↦ hknown v (mem_symbolsOf hi (by rw [symbols]; exact hv))) name hmem
  have hrestricted {v : Symbol} (hv : Library.Minted w.symbols table (.sym v)) (hkind : v.kind.isRestricted = true) :
      IsName ((Name.sym v).textIn table) :=
    isName_of_isRestrictedText (Library.Numbered.isRestrictedText_textIn hV hn hsteps hv.1 hkind hv.2)
  have hobjective : r.objective.kind.isRestricted = true := by rw [h.objective]; rfl
  obtain ⟨p, hp, hpkind, -⟩ := h.arg
  obtain ⟨q, hq, hqkind, -⟩ := h.ret
  have hstorage (hmem : Library.Minted w.symbols table (k.top n .int).target) := h.isName_storage hn hsteps hmem
  cases op with
  | push =>
    have hnames := hminted (List.mem_cons_of_mem _ (List.mem_singleton_self (Transfer.scoreToSlot r.arg (k.top n .int) 1)))
    rw [hp] at hnames
    simp only [List.forall_mem_cons] at hnames
    obtain ⟨hslot, harg, hobj, -⟩ := hnames
    refine ⟨hstorage hslot, hrestricted hobj hobjective, fun _ ↦ ?_, fun hop ↦ absurd rfl hop⟩
    rw [names, hp]
    exact hrestricted harg (by rw [hpkind]; rfl)
  | pop | peek =>
    have hnames := hminted (List.mem_cons_self (a := Transfer.slotToScore (k.top n .int) r.ret 1))
    rw [hq] at hnames
    simp only [List.forall_mem_cons] at hnames
    obtain ⟨hret, hobj, hslot, -⟩ := hnames
    refine ⟨hstorage hslot, hrestricted hobj hobjective, by simp, fun _ ↦ ?_⟩
    rw [names, hq]
    exact hrestricted hret (by rw [hqkind]; rfl)

theorem Offers.lines_of_emit (h : Offers V w root k r rs s) (hV : V.Restricted) (hn : Numbered V w.symbols)
    (hfitted : Fitted root k r) {roots : List NodeId}
    (hroots : ∀ id, IsRoot w.graph id → id ∈ roots ∧ (w.graph.node id).isContainer = true) {listing : Listing}
    (hemit : Listing.emit s roots [] = .ok listing) {fn : NodeId} (hop : ((op, n), fn) ∈ rs) :
    (names (Listing.tableOf s roots []) k r).Valid op ∧ ∃ f ∈ listing.functions, f.path = (path root op n).joined ∧
      f.lines.flatMap commandsOf = (names (Listing.tableOf s roots []) k r).lines n op := by
  obtain ⟨-, hreads, hpath⟩ := h.makes hop
  have hpool := hn.has_mentioned h.covers roots
  have hroots' (id : NodeId) (hroot : IsRoot s id) : id ∈ roots ∧ (s.node id).isContainer = true := by
    obtain ⟨hroot, hcontainer⟩ := h.isRoot hroot
    rw [hcontainer]
    exact hroots id hroot
  have hfirst := h.rooted.isRoot_zero (Nat.zero_lt_of_lt hreads.lt)
  have hfailure := Listing.failure_of_emit (List.ne_nil_of_mem (hroots' 0 hfirst).1) hemit
  obtain ⟨-, hresolved, -, rfl⟩ := (Listing.emit_eq_ok hpool).1 hemit
  have hsteps : SymbolTable.Steps _ {} (Listing.tableOf s roots []) := Listing.steps_tableOf hpool
  have hlisted := h.rooted.mem_blocksOf hfailure hroots' hreads.notContainer
  have hknown := Listing.known_of_settled hpool hresolved (fn + 1) hlisted
  have hcovers := h.covers (fn + 1)
  rw [hreads.commandsAt_eq] at hknown hcovers
  have hvalid := hfitted.valid hV hn hsteps hknown hcovers
  obtain ⟨p, hp, -⟩ := hfitted.arg
  obtain ⟨q, hq, -⟩ := hfitted.ret
  refine ⟨hvalid, Listing.functionIn (Listing.tableOf s roots []) s (fn + 1), List.mem_map_of_mem hlisted,
    congrArg Path.joined hpath, ?_⟩
  rw [hreads.lines_functionIn, linesIn]
  simpa using (writes_instructions (by rw [hp]) (by rw [hq])).lines_eq hknown (hvalid.isLine n)

end CommandPack.Stacks

namespace CommandPack.Library

open CommandPack.Graph Stateful Machine

variable {l : Library} {V : Vocabulary} {w : Draft}

theorem Racks.offers (h : Racks w.graph [l.name] l.stack) (hw : Inked V w.symbols w.graph) :
    Stacks.Offers V w [l.name] l.stack l.toRegisters [] w.graph where
  scratch := rfl
  rooted := hw.sane.rooted
  isRoot hroot := ⟨hroot, rfl⟩
  covers _ _ hi := hw.covers _ _ hi
  isAt op := h.isAt (Stacks.actionOf op)
  template op := ⟨[], h.role (Stacks.actionOf op), nofun⟩
  makes := nofun

def stackPaths (l : Library) (op : StackOperation) (n : Nat) : String := (Stacks.path [l.name] op n).joined

theorem offers_of_start {o : BuildOptions} {c : Compilation} (hname : o.library = "" ∨ isRestrictedText o.library = true)
    (hstart : Compilation.start o = .ok c) (hlib : c.lib = some l) (qs : List (StackOperation × Nat)) :
    ∃ M fns s', l.stack.getAll l.toRegisters qs c.session = (.ok fns, s') ∧ fns.length = qs.length ∧
      Stacks.Offers ownNames ⟨c.session, M⟩ [l.name] l.stack l.toRegisters (qs.zip fns).reverse s' ∧
      Stacks.Fitted [l.name] l.stack l.toRegisters ∧ Numbered ownNames M ∧
      ∀ root, IsRoot c.session root → root ∈ c.emitted ∧ (c.session.node root).isContainer = true := by
  obtain ⟨temp, M, hhouses, hequips, hw, hn, hl, hroots, hstorage⟩ := houses_of_start hname hstart hlib
  have hcovers (op : StackOperation) (n : Nat) := Stacks.covers_instructions (n := n) hstorage hequips.arg
    hequips.ret op
  have hfitted : Stacks.Fitted [l.name] l.stack l.toRegisters := by
    refine ⟨hhouses.racks.storage, hhouses.objective.1, hhouses.arg, hhouses.ret, fun name hname ↦ ?_⟩
    rw [List.mem_singleton.1 hname]
    exact (isName_of_isRestrictedText hl).2
  obtain ⟨fns, s', hall, hlength, hoffers⟩ := (hhouses.racks.offers (w := ⟨c.session, M⟩) hw).getAll
    (fun n ↦ isRestrictedText_of_isLabel (StackNames.isLabel_stackKey n)) hcovers qs
  rw [List.append_nil] at hoffers
  exact ⟨M, fns, s', hall, hlength, hoffers, hfitted, hn, hroots⟩

/-- Stacks of the library are stacks. All functions of stacks that are asked for are made, at the paths given here. In
every machine that has the functions that are emitted then, may use their objective and has no stacks at first, whatever
functions of stacks are called and with other things in between that leave stacks alone: the lists in the storage are
the stacks, and each function can be called next, from anywhere, and does what it promises. -/
theorem stacks_are_stacks {o : BuildOptions} {c : Compilation}
    (hname : o.library = "" ∨ isRestrictedText o.library = true) (hstart : Compilation.start o = .ok c)
    (hlib : c.lib = some l) (qs : List (StackOperation × Nat)) :
    ∃ fns s', l.stack.getAll l.toRegisters qs c.session = (.ok fns, s') ∧ fns.length = qs.length ∧
      (∀ op n fn, ((op, n), fn) ∈ qs.zip fns →
        (s'.node (functionOf (s'.node fn)).entry).path.joined = l.stackPaths op n) ∧
      ∀ listing, ({ c with session := s' } : Compilation).emit = .ok listing →
        let w := Stacks.names (Listing.tableOf s' c.emitted []) l.stack l.toRegisters
        ∀ m₀, (∀ f ∈ listing.functions, Dict.find? f.path m₀.functions = some (f.lines.flatMap commandsOf)) →
          Usable w.objective m₀ → w.Holds (fun _ ↦ []) m₀ →
          ∀ L m, w.Reaches l.stackPaths (fun op n ↦ (op, n) ∈ qs) m₀ L m → w.Holds L m ∧ ∀ op n, (op, n) ∈ qs →
            (Room 2 m → ∀ d caller site actor, ∃ m',
              Stateful.Ends (callFunction (d + 1) (l.stackPaths op n) caller site actor) m m' ∧ w.Done n L m m' op) ∧
            (StackNames.Free m → ∃ m', m.run (l.stackPaths op n) = (.ok (), m') ∧ w.Done n L m m' op) := by
  obtain ⟨M, fns, s', hall, hlength, hoffers, hfitted, hn, hroots⟩ := offers_of_start hname hstart hlib qs
  refine ⟨fns, s', hall, hlength, fun op n fn hmem ↦ ?_, fun listing hemit m₀ hfunctions husable hempty L m hreaches ↦ ?_⟩
  · obtain ⟨⟨f, hf, hentry⟩, -, hpath⟩ := hoffers.makes (List.mem_reverse.2 hmem)
    rw [functionOf, hf]
    dsimp only
    rw [hentry, hpath, stackPaths]
  · have hemitted {op : StackOperation} {n : Nat} (hop : (op, n) ∈ qs) :
        (Stacks.names (Listing.tableOf s' c.emitted []) l.stack l.toRegisters).Valid op ∧
          Dict.find? (l.stackPaths op n) m₀.functions =
            some ((Stacks.names (Listing.tableOf s' c.emitted []) l.stack l.toRegisters).lines n op) := by
      obtain ⟨fn, hfn⟩ : ∃ fn, ((op, n), fn) ∈ qs.zip fns := by
        obtain ⟨i, hi, hget⟩ := List.getElem_of_mem hop
        exact ⟨fns[i], by rw [← hget, List.mem_iff_getElem]; exact ⟨i, by simp [hlength, hi], by simp⟩⟩
      obtain ⟨hvalid, f, hf, hpath, hcommands⟩ := hoffers.lines_of_emit ownNames_restricted hn hfitted hroots hemit
        (List.mem_reverse.2 hfn)
      refine ⟨hvalid, ?_⟩
      rw [stackPaths, ← hpath, hfunctions f hf, hcommands]
    obtain ⟨hholds, hhosts⟩ := hreaches.holds (fun op n hop ↦ (hemitted hop).1)
      ⟨fun hop ↦ (hemitted hop).2, husable⟩ hempty
    refine ⟨hholds, fun op n hop ↦ ⟨fun hroom d caller site actor ↦ ?_, fun hfree ↦ ?_⟩⟩
    · exact hholds.ends_call (hemitted hop).1 hhosts hop hroom d caller site actor
    · exact hholds.run (hemitted hop).1 hhosts hop hfree

def isEmittedWith (qs : List (StackOperation × Nat)) (r : Except Problem Compilation) : Bool :=
  match r with
  | .ok c => c.lib.any fun l ↦ (Listing.evaluate (l.stack.getAll l.toRegisters qs c.session).2 c.emitted []).toBool
  | .error _ => false

def sampleRequests : List (StackOperation × Nat) := [(.push, 1), (.push, 10), (.pop, 1)]

theorem isEmittedWith_sample : isEmittedWith sampleRequests (Compilation.start {}) = true := by decide +kernel

theorem ownNames_separates : ownNames.Separates where
  root h := fun hmem ↦ absurd (List.all_eq_true.1 (all_of_isRestrictedText h) _ hmem) (by decide)
  child h := fun hmem ↦ absurd (List.all_eq_true.1 (all_of_isRestrictedText h) _ hmem) (by decide)

/-- The usual library can be emitted with functions of stacks, and each has a path of its own. -/
theorem emits_sample : ∃ c l s' listing, Compilation.start {} = .ok c ∧ c.lib = some l ∧
    s' = (l.stack.getAll l.toRegisters sampleRequests c.session).2 ∧
    ({ c with session := s' } : Compilation).emit = .ok listing ∧
    ∀ f ∈ listing.functions, Dict.find? f.path (ofListing {} listing).functions = some (f.lines.flatMap commandsOf) := by
  have heval := isEmittedWith_sample
  cases hstart : Compilation.start {} with
  | error p =>
    rw [hstart] at heval
    cases heval
  | ok c =>
    rw [hstart, isEmittedWith, Option.any_eq_true] at heval
    obtain ⟨l, hlib, heval⟩ := heval
    obtain ⟨M, fns, s', hall, -, hoffers, -, hn, hroots⟩ := offers_of_start (.inl rfl) hstart hlib sampleRequests
    rw [hall] at heval
    have hemit := Listing.emit_eq_evaluate (hn.has_mentioned hoffers.covers c.emitted) []
    cases hlisting : Listing.evaluate s' c.emitted [] with
    | error e =>
      rw [hlisting] at heval
      cases heval
    | ok listing =>
      rw [hlisting] at hemit
      have hemitted : c.emitted = [l.root] := by
        rw [Compilation.emitted, hlib, roots_of_start hstart]
        rfl
      have hzero : IsRoot s' 0 := hoffers.rooted.isRoot_zero (Nat.zero_lt_of_lt (hoffers.isAt .push).1)
      have hroot : ∀ root ∈ c.emitted, IsRoot s' root := by
        have hmem := (hroots 0 (hoffers.isRoot hzero).1).1
        rw [hemitted, List.mem_singleton] at hmem
        rw [hemitted, ← hmem]
        simpa using hzero
      have hnodup := (Listing.nodup_of_emit_iff ownNames_separates hoffers.rooted hroot hemit).2
        (by rw [hemitted]; exact List.pairwise_singleton _ _)
      exact ⟨c, l, s', listing, rfl, hlib, by rw [hall], hemit, fun f hf ↦ find?_ofListing hnodup hf⟩

/-- A number is put on a stack and another one on a second stack, and then two numbers are taken from the first. -/
theorem stacks_are_stacks_apart : ∃ c l s' listing, Compilation.start {} = .ok c ∧ c.lib = some l ∧
    s' = (l.stack.getAll l.toRegisters sampleRequests c.session).2 ∧
    ({ c with session := s' } : Compilation).emit = .ok listing ∧
    let w := Stacks.names (Listing.tableOf s' c.emitted []) l.stack l.toRegisters
    let m₀ : Machine := { functions := (ofListing {} listing).functions }
    ∃ m₁ m₂ m₃ m₄, (setScore m₀ (.player w.arg) w.objective 5).run (l.stackPaths .push 1) = (.ok (), m₁) ∧
      (setScore m₁ (.player w.arg) w.objective 7).run (l.stackPaths .push 10) = (.ok (), m₂) ∧
      m₂.run (l.stackPaths .pop 1) = (.ok (), m₃) ∧ score? m₃ (.player w.ret) w.objective = some 5 ∧
      m₃.run (l.stackPaths .pop 1) = (.ok (), m₄) ∧ score? m₄ (.player w.ret) w.objective = some 0 ∧
      w.Holds (fun n ↦ if n = 10 then [7] else []) m₄ := by
  obtain ⟨c, l, s', listing, hstart, hlib, hs', hemit, hlisted⟩ := emits_sample
  obtain ⟨fns, s'', hall, -, -, hstacks⟩ := stacks_are_stacks (.inl rfl) hstart hlib sampleRequests
  rw [hall] at hs'
  subst hs'
  refine ⟨c, l, _, listing, hstart, hlib, by rw [hall], hemit, ?_⟩
  let w := Stacks.names (Listing.tableOf s' c.emitted []) l.stack l.toRegisters
  let m₀ : Machine := { functions := (ofListing {} listing).functions }
  have hargument (m : Machine) (v : Int32) : w.argument (setScore m (.player w.arg) w.objective v) = v := by
    rw [StackNames.argument, score?_setScore_player, if_pos ⟨rfl, rfl⟩]
    rfl
  have hnext := hstacks listing hemit m₀ hlisted (.inl rfl) (fun _ ↦ rfl)
  have hfree₀ : StackNames.Free (setScore m₀ (.player w.arg) w.objective 5) :=
    ⟨rfl, rfl, show (1 : Int) ≤ 1024 by decide, .inr (show (2 : Int) ≤ 65536 by decide)⟩
  have h₀ : w.Reaches l.stackPaths (fun op n ↦ (op, n) ∈ sampleRequests) m₀ (fun _ ↦ []) _ := .setArgument .start 5
  obtain ⟨m₁, hrun₁, hdone₁⟩ := ((hnext _ _ h₀).2 .push 1 (by decide)).2 hfree₀
  have h₁ := (h₀.run (show (.push, 1) ∈ sampleRequests by decide) hfree₀).setArgument 7
  rw [hrun₁, hargument] at h₁
  have hfree₁ : StackNames.Free (setScore m₁ (.player w.arg) w.objective 7) := by
    obtain ⟨hidle, hwatch, hdepth, hbudget⟩ := hfree₀.run hrun₁ hdone₁.near
    exact ⟨hidle, hwatch, hdepth, hbudget⟩
  obtain ⟨m₂, hrun₂, hdone₂⟩ := ((hnext _ _ h₁).2 .push 10 (by decide)).2 hfree₁
  have h₂ := h₁.run (show (.push, 10) ∈ sampleRequests by decide) hfree₁
  rw [hrun₂, hargument] at h₂
  have hfree₂ := hfree₁.run hrun₂ hdone₂.near
  obtain ⟨m₃, hrun₃, hdone₃⟩ := ((hnext _ _ h₂).2 .pop 1 (by decide)).2 hfree₂
  have h₃ := h₂.run (show (.pop, 1) ∈ sampleRequests by decide) hfree₂
  rw [hrun₃] at h₃
  have hfree₃ := hfree₂.run hrun₃ hdone₃.near
  obtain ⟨m₄, hrun₄, hdone₄⟩ := ((hnext _ _ h₃).2 .pop 1 (by decide)).2 hfree₃
  refine ⟨m₁, m₂, m₃, m₄, hrun₁, hrun₂, hrun₃, hdone₃.result, hrun₄, hdone₄.result, ?_⟩
  have hlists (v v' : Int32) : StackOperation.pop.after 1 v (StackOperation.pop.after 1 v'
      (StackOperation.push.after 10 7 (StackOperation.push.after 1 5 fun _ ↦ []))) = fun n ↦ if n = 10 then [7] else [] := by
    funext n
    by_cases hten : n = 10
    · simp [StackOperation.after, hten]
    · by_cases hone : n = 1 <;> simp [StackOperation.after, hten, hone]
  rw [← hlists]
  exact hdone₄.holds

end CommandPack.Library
