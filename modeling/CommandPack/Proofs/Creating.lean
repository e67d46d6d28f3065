import Mathlib
import CommandPack.Proofs.Furnishing

/-!
Making objects. What makes an object is added in three parts, and only the second, which keeps the number of the new
object in a variable, can be refused once the first is there: a variable that takes a number also gives it back.
-/

namespace CommandPack.Transfer

open Stateful

variable {v : Score} {n n' : Scratch} {x : Operand} {cmds : List Instruction}

@[simp] theorem lift_unitScale_one (src dst : Operand) : (liftM (unitScale 1 src dst) : Synth Unit) = pure () := by
  have hunit : ((1 : Float) != 1) = false := by decide +kernel
  rw [unitScale, hunit]
  rfl

theorem move_into_score (x : Operand) (w : Score) : move x (.score w) = load (.score w) 1 x := by
  cases x <;> rfl

/-- Reading into a score makes no notes, so that it always ends the same way. -/
theorem load_score (w : Score) (x : Operand) : ∃ e, ∀ n, load (.score w) 1 x n = (e, n) := by
  induction x generalizing w with
  | const type text =>
    simp only [load, direct, lift_unitScale_one, pure_bind]
    split
    · exact ⟨_, fun _ ↦ rfl⟩
    · rcases constToScore type text w with e | i <;> exact ⟨_, fun _ ↦ rfl⟩
  | score u => exact ⟨_, fun _ ↦ rfl⟩
  | slot u => exact ⟨_, fun _ ↦ rfl⟩
  | staged type via ih => simpa only [load, lift_unitScale_one, pure_bind] using ih w
  | member access object name type ih =>
    cases access with
    | none => exact ⟨_, fun _ ↦ rfl⟩
    | some access =>
      obtain ⟨e, he⟩ := ih access.register
      refine ⟨e.map (· ++ [.call ⟨access.fetch, none⟩] ++ [slotToScore (memberSlot access name type) w 1]), fun n ↦ ?_⟩
      simp only [load, lift_unitScale_one, bind_apply, pure_apply, andThen_ok, he]
      cases e <;> rfl

/-- A variable that takes the value of a score gives it to any other. -/
theorem load_of_store (h : store (.score v) 1 x n = (.ok cmds, n')) (w : Score) :
    ∃ back, ∀ n, load (.score w) 1 x n = (.ok back, n) := by
  induction x with
  | const type text => cases h
  | score u => exact ⟨_, fun _ ↦ rfl⟩
  | slot u => exact ⟨_, fun _ ↦ rfl⟩
  | staged type via ih =>
    simp only [store, lift_unitScale_one, pure_bind] at h
    simpa only [load, lift_unitScale_one, pure_bind] using ih h
  | member access object name type ih =>
    cases access with
    | none => cases h
    | some access =>
      obtain ⟨e, he⟩ := load_score access.register object
      simp only [store, lift_unitScale_one, bind_apply, pure_apply, andThen_ok, he] at h
      cases e with
      | error e => cases h
      | ok key =>
        refine ⟨key ++ [.call ⟨access.fetch, none⟩] ++ [slotToScore (memberSlot access name type) w 1], fun n ↦ ?_⟩
        simp only [load, lift_unitScale_one, bind_apply, pure_apply, andThen_ok, he]
        rfl

end CommandPack.Transfer

namespace CommandPack.Graph

open Stateful Library

variable {s s' : Session} {fn cls : Nat} {f : FunctionState} {r : Registers} {target : Operand} {p : Problem}

/-- The graph with instructions at the cursor of a function. -/
def appended (s : Session) (f : FunctionState) (cmds : List Instruction) : Session :=
  recast s f.current (.block (extended (blockOf (s.node f.current)) cmds))

namespace Open

theorem appended (h : Open s fn f) (cmds : List Instruction) : Open (appended s f cmds) fn f :=
  (h.touches_current _).opened h h.ended rfl h.stops

theorem noted (h : Open s fn f) (n : Scratch) : Open { s with toScratch := n } fn f :=
  ⟨h.lt, h.role, h.ended, h.current_lt, h.block, h.stops⟩

theorem commandsAt_appended (h : Open s fn f) (cmds : List Instruction) (id : Nat) :
    commandsAt (Graph.appended s f cmds) id = commandsAt s id ++ if id = f.current then cmds else [] := by
  rw [commandsAt, blockOf, Graph.appended, role_recast h.current_lt]
  by_cases hid : id = f.current
  · subst hid
    simp only [if_true]
    exact commands_extended ..
  · simp only [hid, if_false, List.append_nil]
    rfl

theorem call_apply (h : Open s fn f) (r : Registers) (callee : Nat) : r.call fn callee none s =
    (.ok (), Graph.appended s f [.call ⟨(s.node (functionOf (s.node callee)).entry).path, none⟩]) := by
  simp only [Registers.call, bind_apply, function_apply, path_apply, andThen_ok]
  exact h.add_apply _

theorem move_apply (h : Open s fn f) (src dst : Operand) : move fn src dst s =
    andThen (add fn) ((Transfer.move src dst s.toScratch).1,
      { s with toScratch := (Transfer.move src dst s.toScratch).2 }) := by
  rw [move, bind_apply, h.checked, andThen_ok, bind_apply]
  rfl

/-- A value that can be read is handed over with a call. -/
theorem call_some (h : Open s fn f) {x : Operand} {back : List Instruction}
    (hback : ∀ n, Transfer.load (.score r.arg) 1 x n = (.ok back, n)) (callee : Nat) :
    ∃ s', r.call fn callee (some x) s = (.ok (), s') := by
  have hmove : move fn x (.score r.arg) s = (.ok (), Graph.appended s f back) := by
    rw [h.move_apply, Transfer.move_into_score, hback, andThen_ok]
    exact h.add_apply back
  have hsplit : r.call fn callee (some x) = move fn x (.score r.arg) >>= fun _ ↦ r.call fn callee none := by
    simp only [Registers.call]
  exact ⟨_, by rw [hsplit, bind_apply, hmove, andThen_ok, (h.appended back).call_apply]⟩

end Open

theorem method_apply (cls : Nat) (name : String) (s : Session) : ∃ e, method cls name s = (e, s) := by
  rw [method, bind_apply, get_apply, andThen_ok]
  cases Graph.get? s cls name with
  | none => exact ⟨_, rfl⟩
  | some fn => cases hrole : (s.node fn).role <;> simp only [hrole] <;> exact ⟨_, rfl⟩

/-- A failed creation has added nothing if the class lacks a method. Else the variable has refused the number of the
object, and what makes the object is called all the same: the block at the cursor ends with that call, and nothing else
was added to any block. -/
theorem failed_creation_leaves_call (hopen : Open s fn f) (h : newObject r fn cls target s = (.error p, s')) :
    ((∃ name ∈ ["__new__", "__init__"], method cls name s = (.error p, s)) ∧ s' = s) ∨
    ∃ make init, method cls "__new__" s = (.ok make, s) ∧ method cls "__init__" s = (.ok init, s) ∧
      (Transfer.move (.score r.ret) target s.toScratch).1 = .error p ∧
      ∀ id, commandsAt s' id = commandsAt s id ++
        if id = f.current then [.call ⟨(s.node (functionOf (s.node make)).entry).path, none⟩] else [] := by
  obtain ⟨em, hm⟩ := method_apply cls "__new__" s
  obtain ⟨ei, hi⟩ := method_apply cls "__init__" s
  rw [newObject, bind_apply, hm] at h
  rcases em with e | make
  · cases h
    exact .inl ⟨⟨_, by simp, hm⟩, rfl⟩
  rw [andThen_ok, bind_apply, hi] at h
  rcases ei with e | init
  · cases h
    exact .inl ⟨⟨_, by simp, hi⟩, rfl⟩
  rw [andThen_ok, bind_apply, hopen.call_apply, andThen_ok, bind_apply] at h
  generalize hc : Instruction.call ⟨(s.node (functionOf (s.node make)).entry).path, none⟩ = c at h
  have hcalled := hopen.appended [c]
  have hscratch : (appended s f [c]).toScratch = s.toScratch := rfl
  rw [hcalled.move_apply, hscratch] at h
  rcases hmove : Transfer.move (.score r.ret) target s.toScratch with ⟨e | cmds, n⟩ <;> rw [hmove] at h
  · cases h
    exact .inr ⟨make, init, hm, hi, rfl, hc ▸ hopen.commandsAt_appended [c]⟩
  -- a target that took the number gives it to the argument register, so that the last part cannot fail
  obtain ⟨back, hback⟩ := Transfer.load_of_store (x := target) hmove r.arg
  rw [andThen_ok, (hcalled.noted n).add_apply, andThen_ok] at h
  obtain ⟨s₁, hok⟩ := ((hcalled.noted n).appended cmds).call_some hback init
  cases hok.symm.trans h

/-- A class that makes objects, and a function that is open. -/
def workshop : Session :=
  (do
    let root ← Graph.root "demo"
    let cls ← createClass root "thing" []
    for name in ["__new__", "__init__"] do
      let _ ← createFunction cls name name [] ""
    let _ ← createFunction root "main" "main" [] "" : Build Unit) {} |>.2

def workshopRegisters : Registers :=
  { root := 0, name := "std", objective := ⟨0, .objective, "std", none, []⟩, tempObjective := ⟨1, .objective, "temp", none, []⟩
    arg := ⟨.lit "arg", .lit "std"⟩, ret := ⟨.lit "ret", .lit "std"⟩ }

/-- A variable that holds texts, and no numbers. -/
def label : Operand := .slot (.inStorage (.lit "demo:x") "p" .string)

theorem open_workshop : Open workshop 6 { entry := 7, current := 7 } := by
  refine ⟨by decide, rfl, rfl, by decide, rfl, rfl⟩

theorem newObject_label : newObject workshopRegisters 6 1 label workshop =
    (.error (Transfer.incompatible (.score workshopRegisters.ret) label),
      appended workshop { entry := 7, current := 7 } [.call ⟨["demo", "thing", "__new__", "__new__"], none⟩]) := rfl

theorem failed_creation_leaves_call_label : ∃ p s', Open workshop 6 { entry := 7, current := 7 } ∧
    newObject workshopRegisters 6 1 label workshop = (.error p, s') ∧
    commandsAt s' 7 = commandsAt workshop 7 ++ [.call ⟨["demo", "thing", "__new__", "__new__"], none⟩] := by
  refine ⟨_, _, open_workshop, newObject_label, ?_⟩
  obtain ⟨⟨name, hname, hmissing⟩, -⟩ | ⟨make, init, hmake, -, -, hleft⟩ :=
    failed_creation_leaves_call open_workshop newObject_label
  · simp only [List.mem_cons, List.not_mem_nil, or_false] at hname
    rcases hname with rfl | rfl <;> cases hmissing
  · cases hmake
    exact hleft 7

theorem creation_not_atomic : ¬ ∀ (s s' : Session) (fn cls : Nat) (f : FunctionState) (r : Registers) (target : Operand)
    (p : Problem), Open s fn f → newObject r fn cls target s = (.error p, s') →
      ∀ id, commandsAt s' id = commandsAt s id := by
  intro hatomic
  have hsame := hatomic _ _ _ _ _ _ _ _ open_workshop newObject_label 7
  rw [open_workshop.commandsAt_appended, if_pos rfl, List.append_right_eq_self] at hsame
  cases hsame

end CommandPack.Graph
