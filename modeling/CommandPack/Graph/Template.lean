import CommandPack.Graph.Function

/-!
Templates: functions made on demand, one for each set of arguments.
-/

namespace CommandPack.Graph

open Text

def argsKey (args : Dict Datum) : String :=
  join "," (args.map fun (k, v) => k ++ "=" ++ v.display)

def instances (n : Node) : List (String × NodeId) :=
  match n.role with
  | .template is => is
  | _ => []

def setInstance (key : String) (fn : NodeId) (is : List (String × NodeId)) : List (String × NodeId) :=
  is.filter (·.1 != key) ++ [(key, fn)]

/-- The instance for a set of arguments; `build` makes it if there is none yet, inside the
template. -/
def instantiate (template : NodeId) (args : Dict Datum) (build : Build (Option NodeId)) :
    Build NodeId := do
  let key := argsKey args
  match (instances (← node template)).lookup key with
  | some fn => return fn
  | none =>
    match ← build with
    | some fn =>
      if (← node fn).parent = some template then
        finish fn
        update template fun n => { n with role := .template (setInstance key fn (instances n)) }
        return fn
      else outside
    | none => outside
where
  outside : Build NodeId := do
    throw (.invariant s!"template {(← path template).joined} must create its instance inside itself")

end CommandPack.Graph
