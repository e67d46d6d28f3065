import CommandPack.Text.Blank
import CommandPack.Machine.Fault

/-!
Problems: what can be wrong with a program, and the failures that carry one or several of them.
-/

namespace CommandPack

open Text

inductive ProblemKind where
  | incompatibleType
  | unsupported
  | malformedTemplate
  | invariantViolation
  | invalidName
  | syntaxError
  | undefinedName
deriving DecidableEq

namespace ProblemKind

def all : List ProblemKind :=
  [incompatibleType, unsupported, malformedTemplate, invariantViolation, invalidName, syntaxError,
    undefinedName]

def label : ProblemKind → String
  | incompatibleType => "incompatible type"
  | unsupported => "unsupported"
  | malformedTemplate => "malformed template"
  | invariantViolation => "invariant violation"
  | invalidName => "invalid name"
  | syntaxError => "syntax error"
  | undefinedName => "undefined name"

/-- The code of a problem of the kind, unless a more special one is given. -/
def code : ProblemKind → String
  | incompatibleType => "E2001"
  | unsupported => "E2002"
  | malformedTemplate => "E2003"
  | invariantViolation => "E2004"
  | invalidName => "E2005"
  | syntaxError => "E1001"
  | undefinedName => "E2006"

end ProblemKind

def codeDescriptions : List (String × String) := [
  ("E1001", "invalid document"),
  ("E1002", "unknown statement"),
  ("E1003", "invalid condition"),
  ("E1004", "invalid declaration"),
  ("E2001", "incompatible type"),
  ("E2002", "unsupported operation"),
  ("E2003", "malformed command template"),
  ("E2004", "invariant violation"),
  ("E2005", "invalid symbol name"),
  ("E2006", "undefined variable"),
  ("E2007", "undefined function"),
  ("W1001", "precision loss"),
  ("W1002", "type assumption")]

def describeCode (code : String) : String :=
  ((codeDescriptions.find? (·.1 == code)).map (·.2)).getD "unknown error"

/-- The group a code belongs to, told by its first two characters. -/
def codeCategory (code : String) : String :=
  match code.toList with
  | 'W' :: _ :: _ => "warning"
  | c :: '1' :: _ => if c.utf8Size = 1 then "document" else "unknown"
  | c :: '2' :: _ => if c.utf8Size = 1 then "compile" else "unknown"
  | _ => "unknown"

/-- A problem with a program. Lines and columns count from 1 and are 0 if not known. -/
structure Problem where
  kind : Option ProblemKind
  message : String
  code : String := (kind.map ProblemKind.code).getD ""
  file : String := ""
  line : Int := 0
  column : Int := 0
  /-- What was being compiled, outermost first. -/
  context : List String := []
  note : String := ""
  /-- Does it end a compilation with no report at all? -/
  fatal : Bool := false

namespace Problem

def incompatible (message : String) : Problem := { kind := some .incompatibleType, message }
def unsupported (message : String) : Problem := { kind := some .unsupported, message }
def malformed (message : String) : Problem := { kind := some .malformedTemplate, message }
def invariant (message : String) : Problem := { kind := some .invariantViolation, message }
def invalidName (message : String) : Problem := { kind := some .invalidName, message }
def badSyntax (message : String) : Problem := { kind := some .syntaxError, message }
def undefined (message : String) : Problem := { kind := some .undefinedName, message }
def undefinedFunction (message : String) : Problem :=
  { kind := some .undefinedName, message, code := "E2007" }

def withLocation (p : Problem) (file : String) (line column : Int) : Problem :=
  { p with file, line, column }

def text (p : Problem) : String :=
  "compile error: " ++ p.message ++
    if p.file.isEmpty ∧ p.line ≤ 0 then ""
    else "\n\nlocation: " ++ (if p.file.isEmpty then "" else p.file ++ ":") ++
      s!"{p.line}:{p.column} (line {p.line}, column {p.column})"

end Problem

/-- Why something failed: a problem, several of them, an ended run, or anything else. -/
inductive Failure where
  | problem (p : Problem)
  | plain (text : String)
  | group (ps : List Problem)
  | several (fs : List Failure)
  | stopped (s : Machine.Stop)
deriving Inhabited

namespace Failure

def ofProblems? : List Problem → Option Failure
  | [] => none
  | [p] => some (.problem p)
  | ps => some (.group ps)

def groupText : List Problem → String
  | [] => ""
  | [p] => p.text
  | p :: ps => s!"{p.text} (and {ps.length} more errors)"

def collect (fs : List Failure) : Failure :=
  .several (fs.flatMap fun
    | .several gs => gs
    | f => [f])

mutual

/-- The first problem, not looking into groups. -/
def firstProblem? : Failure → Option Problem
  | .problem p => some p
  | .several fs => firstProblemOf? fs
  | .plain _ | .group _ | .stopped _ => none

def firstProblemOf? : List Failure → Option Problem
  | [] => none
  | f :: fs => (firstProblem? f).or (firstProblemOf? fs)

end

mutual

/-- Is a problem of a kind among what went wrong? The first problem is tried before the parts one by one. -/
def has (k : ProblemKind) : Failure → Bool
  | .problem p => p.kind == some k
  | .group ps => ps.any (·.kind == some k)
  | .several fs => (firstProblemOf? fs).any (·.kind == some k) || anyHas k fs
  | .plain _ | .stopped _ => false

def anyHas (k : ProblemKind) : List Failure → Bool
  | [] => false
  | f :: fs => has k f || anyHas k fs

end

mutual

def text : Failure → String
  | .problem p => p.text
  | .plain text => text
  | .group ps => groupText ps
  | .several fs =>
    let points := textsOf fs
    match points with
    | [p] => "1 error occurred:\n\t* " ++ p ++ "\n\n"
    | _ => s!"{points.length} errors occurred:\n\t" ++
        join "\n\t" (points.map ("* " ++ ·)) ++ "\n\n"
  | .stopped s => s.text

def textsOf : List Failure → List String
  | [] => []
  | f :: fs => text f :: textsOf fs

end

end Failure

inductive WarningKind where
  | precision
  | typeAssumption
deriving DecidableEq

def WarningKind.label : WarningKind → String
  | precision => "precision"
  | typeAssumption => "type assumption"

def WarningKind.code : WarningKind → String
  | precision => "W1001"
  | typeAssumption => "W1002"

structure Warning where
  kind : Option WarningKind
  message : String
  /-- What was being compiled, outermost first. -/
  context : List String := []

namespace Warning

def code (w : Warning) : String := (w.kind.map WarningKind.code).getD ""

def label (w : Warning) : String := (w.kind.map WarningKind.label).getD "warning"

def text (w : Warning) : String :=
  s!"warning[{w.code}]: {w.message}" ++
    if w.context.isEmpty then "" else " (in " ++ join " > " w.context ++ ")"

end Warning

end CommandPack
