import CommandPack.Graph.Function

/-!
Control flow: branches and loops become functions of their own, and what follows goes to a new
block.
-/

namespace CommandPack.Graph

/-- `execute <clause> <condition> run <then>`. -/
def guarded (clause : String) (cond : Condition) (then_ : Instruction) : Instruction :=
  .composed [.literal ("execute " ++ clause ++ " " ++ cond.template ++ " run") cond.args, then_]

def createBody (fn : NodeId) (name entryName label : String) (reentrant : Bool) : Build NodeId := do
  let body ← createFunction fn name entryName [] (label ++ (← node fn).name)
  updateFunction body fun f => { f with reentrant }
  return body

/-- What enters a branch. In a function that may be entered again, later rounds overwrite the test's
outcome before the branch is back; there a block in between sets it again. -/
def branchEntry (fn : NodeId) (name : String) (branch : NodeId) (outcome : Score) :
    Build Instruction := do
  let enter ← callOf (← function branch).entry
  if (← function fn).reentrant then
    let restore ← Transfer.move (.int 1) (.score outcome)
    let through ← createBlock fn (name ++ "-then")
    append through (enter :: restore)
    callOf through
  else return enter

/-- Puts the test and the calls of both sides at the cursor. What is added later goes to the block
after the branch, and so do the sides. -/
def joinBranch (fn : NodeId) (name : String) (cond : Condition) (outcome : Score)
    (enter : Instruction) (then_ : NodeId) (else_ : Option NodeId) : Build Unit := do
  let isTrue := Condition.within outcome "1"
  let next ← createBlock fn (name ++ "-continue")
  let reset ← Transfer.move (.int 0) (.score outcome)
  let assign ← Transfer.move (.int 1) (.score outcome)
  let other ← match else_ with
    | some e => callOf (← function e).entry
    | none => callOf next
  append (← function fn).current
    (reset ++ assign.map (guarded "if" cond) ++
      [guarded "if" isTrue enter, guarded "unless" isTrue other])
  for e in else_ do
    updateFunction e fun f => { f with continuation := some next }
  updateFunction then_ fun f => { f with continuation := some next }
  updateFunction fn fun f => { f with current := next }

/-- Lowers a branch, with or without an alternative. The outcome of the test is kept in a score. -/
def branch (fn : NodeId) (cond : Condition) (withElse : Bool) :
    Build (NodeId × Option NodeId) := do
  checkOpen fn
  let reentrant := (← function fn).reentrant
  let name := s!"if{(← node fn).children.length}"
  let then_ ← createBody fn name "branch" "If-branch of " reentrant
  let else_ ← if withElse then
      some <$> createBody fn (name ++ "-else") "branch" "Else-branch of " reentrant
    else pure none
  let outcome ← score fn "_cond"
  let enter ← branchEntry fn name then_ outcome
  joinBranch fn name cond outcome enter then_ else_
  return (then_, else_)

def ifThen (fn : NodeId) (cond : Condition) : Build NodeId :=
  return (← branch fn cond false).1

/-- Lowers a loop to its body. A block tests the condition and enters the body, which comes back to
that block, so each round is one call deeper. A counter is 0 only in the outermost test, which alone
goes on after the loop. -/
def loop (fn : NodeId) (cond : Condition) : Build NodeId := do
  checkOpen fn
  let name := s!"while{(← node fn).children.length}"
  let body ← createBody fn name "loop" "While-loop of " true
  let counter ← score fn "_iteration_number"
  let increment ← Transfer.addConst (.score counter) .int "1"
  let decrement ← Transfer.addConst (.score counter) .int "-1"
  let prime ← Transfer.move (.int 1) (.score counter)
  let entry := (← function body).entry
  append entry increment
  let check ← createBlock body "check-cond"
  let next ← createBlock fn (name ++ "-continue")
  let zero := Condition.within counter "0"
  append check ([guarded "if" cond (← callOf entry)] ++ decrement ++
    [.composed [.literal ("execute unless " ++ cond.template ++ " if " ++ zero.template ++ " run")
      (cond.args ++ zero.args), ← callOf next]])
  append (← function fn).current (prime ++ [← callOf check])
  updateFunction body fun f => { f with continuation := some check }
  updateFunction fn fun f => { f with current := next }
  return body

end CommandPack.Graph
