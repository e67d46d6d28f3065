import CommandPack.Text.Blank

/-!
Paths of files: names with slashes between, in which `.` and `..` can be resolved.
-/

namespace CommandPack.Disk

open Text

def step (rooted : Bool) (done : List String) (name : String) : List String :=
  if name = "" ∨ name = "." then done
  else if name = ".." then
    match done with
    | [] => if rooted then [] else [".."]
    | last :: before => if last = ".." then ".." :: last :: before else before
  else name :: done

def walk (rooted : Bool) (names : List String) : List String := (names.foldl (step rooted) []).reverse

def clean (path : String) : String :=
  let rooted := hasLead "/" path
  let body := join "/" (walk rooted (split '/' path))
  if rooted then "/" ++ body else if body.isEmpty then "." else body

def joinPaths (paths : List String) : String :=
  match paths.filter (· ≠ "") with
  | [] => ""
  | paths => clean (join "/" paths)

end CommandPack.Disk
