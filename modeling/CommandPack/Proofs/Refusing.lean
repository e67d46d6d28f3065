import Mathlib
import CommandPack.Proofs.Building

/-!
Requests to functions under construction. A request is granted as a whole or refused as a whole: what can fail comes
before the first change of the graph, and what comes after it never fails.
-/

namespace CommandPack.Graph

open Stateful

variable {α β : Type} {s s' : Session} {fn : Nat} {p : Problem} {x : Build α} {f : Unit → Build α}

/-- At most notes were made: symbols, temporaries and warnings. -/
def OnlyNotes (s s' : Session) : Prop := s' = { s with toScratch := s'.toScratch }

/-- A request to a function leaves the graph alone if it fails, and is refused once the function is ended. -/
structure Careful (fn : Nat) (s : Session) (x : Build α) : Prop where
  atomic {p : Problem} {s' : Session} (h : x s = (.error p, s')) : OnlyNotes s s'
  heeds (h : (functionOf (s.node fn)).ended = true) : ∃ text, x s = (.error (.invariant text), s)

theorem Careful.of_checkOpen (h : (functionOf (s.node fn)).ended = false → ∀ {p s'}, (checkOpen fn >>= f) s = (.error p, s') →
    OnlyNotes s s') : Careful fn s (checkOpen fn >>= f) := by
  have hended (hended : (functionOf (s.node fn)).ended = true) :
      ∃ text, (checkOpen fn >>= f) s = (.error (.invariant text), s) := by
    rw [bind_apply, checkOpen_of_ended hended]
    exact ⟨_, rfl⟩
  refine ⟨fun {p s'} hfail ↦ ?_, hended⟩
  cases hcase : (functionOf (s.node fn)).ended with
  | false => exact h hcase hfail
  | true =>
    obtain ⟨text, htext⟩ := hended hcase
    rw [htext, outcome_eq_iff] at hfail
    exact hfail.2 ▸ rfl

/-- What works in every open function is granted or refused. -/
theorem Careful.of_ok (h : (functionOf (s.node fn)).ended = false → ∃ a s', (checkOpen fn >>= f) s = (.ok a, s')) :
    Careful fn s (checkOpen fn >>= f) := by
  refine .of_checkOpen fun hopen {p s'} hfail ↦ ?_
  obtain ⟨a, s₁, hok⟩ := h hopen
  rw [hok] at hfail
  cases hfail

/-- What follows a request may not fail. -/
theorem Careful.bind {g : α → Build β} (hx : Careful fn s x) (hg : ∀ a s, ∃ b s', g a s = (.ok b, s')) :
    Careful fn s (x >>= g) := by
  refine ⟨fun {p s'} hfail ↦ ?_, fun hended ↦ ?_⟩
  · rw [bind_apply] at hfail
    rcases hr : x s with ⟨e | a, s₁⟩
    · rw [hr, andThen_error, outcome_eq_iff] at hfail
      exact hx.atomic (hfail.2 ▸ hr)
    · obtain ⟨b, s₂, hb⟩ := hg a s₁
      rw [hr, andThen_ok, hb] at hfail
      cases hfail
  · obtain ⟨text, htext⟩ := hx.heeds hended
    exact ⟨text, by rw [bind_apply, htext, andThen_error]⟩

theorem Careful.map (hx : Careful fn s x) (g : α → β) : Careful fn s (g <$> x) := by
  rw [map_eq_pure_bind]
  exact hx.bind fun a s ↦ ⟨_, s, rfl⟩

/-- Adds the instructions that a value of any kind makes, which may fail and may need symbols and temporaries but
knows nothing of the graph. Moves and additions are of this form. -/
def put (fn : Nat) (x : Synth (List Instruction)) : Build Unit := do
  checkOpen fn
  add fn (← x)

theorem careful_add (fn : Nat) (s : Session) (cmds : List Instruction) : Careful fn s (add fn cmds) := by
  refine .of_ok fun hopen ↦ ?_
  rw [bind_apply, checkOpen_of_open hopen]
  exact ⟨(), _, append_apply _ cmds s⟩

theorem careful_put (fn : Nat) (s : Session) (x : Synth (List Instruction)) : Careful fn s (put fn x) := by
  refine .of_checkOpen fun hopen {p s'} hfail ↦ ?_
  have hlift : (liftM x : Build (List Instruction)) s =
      ((x s.toScratch).1, { s with toScratch := (x s.toScratch).2 }) := rfl
  rw [bind_apply, checkOpen_of_open hopen, andThen_ok, bind_apply, hlift] at hfail
  rcases hx : (x s.toScratch).1 with e | cmds
  · rw [hx, andThen_error, outcome_eq_iff] at hfail
    rw [OnlyNotes, ← hfail.2]
  · rw [hx, andThen_ok] at hfail
    have hnotes := (careful_add fn _ cmds).atomic hfail
    exact hnotes

theorem careful_call (fn : Nat) (s : Session) (callee : Option Target) : Careful fn s (call fn callee) := by
  have hrefused (text : String) : Careful fn s (throw (.invariant text) : Build Unit) := by
    refine ⟨fun hfail ↦ ?_, fun _ ↦ ⟨text, rfl⟩⟩
    cases hfail
    rfl
  cases callee with
  | none => exact hrefused _
  | some target =>
    cases hentry : target.entry with
    | none =>
      rw [call, Instruction.checkedCall, hentry]
      exact careful_add fn s _
    | some e =>
      rw [call, Instruction.checkedCall, hentry]
      exact hrefused _

/-- Leaves a function with a value of any kind, which makes the instructions that bring it to where returned values
go. Leaving with an operand is of this form. -/
def leaveWith (fn : Nat) (x : Operand → Synth (List Instruction)) : Build Unit := do
  checkOpen fn
  match (← get).returns with
  | none => throw (.invariant
      s!"function {(← path fn).joined} returns a value but no return register is installed")
  | some r => put fn (x r)
  updateFunction fn fun f ↦ { f with continuation := none }

theorem careful_leaveWith (fn : Nat) (s : Session) (x : Operand → Synth (List Instruction)) :
    Careful fn s (leaveWith fn x) := by
  refine .of_checkOpen fun hopen {p s'} hfail ↦ ?_
  rw [bind_apply, checkOpen_of_open hopen, andThen_ok] at hfail
  simp only [bind_apply, get_apply, andThen_ok] at hfail
  cases hreturns : s.returns with
  | none =>
    rw [hreturns] at hfail
    cases hfail
    rfl
  | some r =>
    rw [hreturns] at hfail
    exact ((careful_put fn s (x r)).bind fun _ _ ↦ ⟨_, _, updateFunction_apply ..⟩).atomic hfail

theorem careful_leave (fn : Nat) (s : Session) (value : Option Operand) : Careful fn s (leave fn value) := by
  cases value with
  | none =>
    refine .of_ok fun hopen ↦ ?_
    rw [bind_apply, checkOpen_of_open hopen]
    exact ⟨_, _, updateFunction_apply fn (fun f ↦ { f with continuation := none }) s⟩
  | some v => exact careful_leaveWith fn s (Transfer.move v)

/-- What may be asked of a function under construction. -/
inductive Request where
  | add (cmds : List Instruction)
  | comment (text : String)
  | call (callee : Option Target)
  | put (x : Synth (List Instruction))
  | move (src dst : Operand)
  | addInPlace (dst delta : Operand)
  | leave (value : Option Operand)
  | leaveWith (x : Operand → Synth (List Instruction))
  | ifThen (cond : Condition)
  | ifElse (cond : Condition)
  | loop (cond : Condition)

/-- Asks a function; what is made for it is not of interest here. -/
def Request.run (fn : NodeId) : Request → Build Unit
  | add cmds => Graph.add fn cmds
  | comment text => Graph.comment fn text
  | call callee => Graph.call fn callee
  | put x => Graph.put fn x
  | move src dst => Graph.move fn src dst
  | addInPlace dst delta => Graph.addInPlace fn dst delta
  | leave value => Graph.leave fn value
  | leaveWith x => Graph.leaveWith fn x
  | ifThen cond => (fun _ ↦ ()) <$> Graph.ifThen fn cond
  | ifElse cond => (fun _ ↦ ()) <$> branch fn cond true
  | loop cond => (fun _ ↦ ()) <$> Graph.loop fn cond

theorem careful_branch (hfn : fn < s.nodes.size) (c : Condition) (withElse : Bool) :
    Careful fn s (branch fn c withElse) := by
  refine .of_ok fun hopen ↦ ?_
  have hlt : fn < (minted (sidesMade s fn (branchName s fn) withElse (functionOf (s.node fn)).reentrant)).nodes.size := by
    rw [size_minted, sidesMade]
    split <;> simp <;> omega
  have hrun := branch_apply (c := c) hfn (checkOpen_of_open hopen) withElse
  simp only [branchEntry_apply hlt, andThen_ok, bind_apply, joinBranch_apply, pure_apply] at hrun
  exact ⟨_, _, hrun⟩

theorem Request.careful (hfn : fn < s.nodes.size) (r : Request) : Careful fn s (r.run fn) := by
  cases r with
  | add cmds => exact careful_add fn s cmds
  | comment text => exact careful_add fn s _
  | call callee => exact careful_call fn s callee
  | put x => exact careful_put fn s x
  | move src dst => exact careful_put fn s (Transfer.move src dst)
  | addInPlace dst delta => exact careful_put fn s (Transfer.addInPlace dst delta)
  | leave value => exact careful_leave fn s value
  | leaveWith x => exact careful_leaveWith fn s x
  | ifThen cond => exact ((careful_branch hfn cond false).bind fun r s ↦ ⟨r.1, s, rfl⟩).map _
  | ifElse cond => exact (careful_branch hfn cond true).map _
  | loop cond =>
    refine Careful.map (.of_ok fun hopen ↦ ?_) _
    exact ⟨_, _, loop_apply hfn (checkOpen_of_open hopen)⟩

theorem finish_of_ended (h : (functionOf (s.node fn)).ended = true) : finish fn s = (.ok (), s) := by
  rw [finish, bind_apply, function_apply, andThen_ok, h]
  rfl

theorem ended_of_finish (hfn : fn < s.nodes.size) : (functionOf ((finish fn s).2.node fn)).ended = true := by
  cases hended : (functionOf (s.node fn)).ended with
  | true => rwa [finish_of_ended hended]
  | false =>
    simp only [finish, bind_apply, function_apply, andThen_ok, hended, Bool.false_eq_true, not_false_eq_true, if_true,
      updateBlock_apply, updateFunction_apply]
    rw [functionOf, role_recast (by simpa using hfn), if_pos rfl]

/-- Requests are atomic and heed the end of a function. On every graph, a request that fails leaves all nodes, with
their children, instructions, cursors, continuations and ends, and the failure of the graph as they were, and at most
makes notes; an ended function refuses every request as a broken rule and stays as it is; and ending a function again
changes nothing. -/
theorem requests_are_atomic (s : Session) (fn : Fin s.nodes.size) :
    (∀ (r : Request) (p : Problem) (s' : Session), r.run fn s = (.error p, s') →
      s' = { s with toScratch := s'.toScratch }) ∧
    ((functionOf (s.node fn)).ended = true → ∀ r : Request, ∃ text, r.run fn s = (.error (.invariant text), s)) ∧
    finish fn (finish fn s).2 = (.ok (), (finish fn s).2) :=
  ⟨fun r _ _ ↦ (r.careful fn.isLt).atomic, fun h r ↦ (r.careful fn.isLt).heeds h,
    finish_of_ended (ended_of_finish fn.isLt)⟩

end CommandPack.Graph
