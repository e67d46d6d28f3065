import CommandPack.Problem.Basic

/-!
The layout of problems and warnings for people: a headline, the location, notes, and what was being
compiled.
-/

namespace CommandPack.Problem

open Text

inductive Paint where
  | error | warning | header | code | pipe | location | hint | note

def Paint.codes : Paint → String
  | error => "31"
  | warning => "33;1"
  | header => "91;1"
  | code | pipe => "90"
  | location => "36"
  | hint => "93"
  | note => "94"

def paint (color : Bool) (p : Paint) (s : String) : String :=
  if color then "\x1b[" ++ p.codes ++ "m" ++ s ++ "\x1b[0m" else s

structure Entry where
  isWarning : Bool := false
  code : String := ""
  message : String
  file : String := ""
  line : Int := 0
  column : Int := 0
  hint : String := ""
  note : String := ""
  context : List String := []

def entry (p : Problem) : Entry :=
  { code := p.code, message := p.message, file := p.file, line := p.line, column := p.column,
    note := p.note, context := p.context }

def headline (color : Bool) (e : Entry) (number : String) : String :=
  paint color (if e.isWarning then .warning else .header) (if e.isWarning then "warning" else "error") ++
    (if ¬ e.code.isEmpty then paint color .code ("[" ++ e.code ++ "]")
      else if ¬ number.isEmpty then paint color .code ("[" ++ number ++ "]") else "") ++
    paint color .error ": " ++ e.message ++ "\n"

def locationLine (color : Bool) (e : Entry) : String :=
  if e.file.isEmpty ∧ e.line ≤ 0 then ""
  else
    let place := if e.line ≤ 0 then e.file
      else (if e.file.isEmpty then "" else e.file ++ ":") ++ s!"{e.line}:{e.column}"
    "  " ++ paint color .location ("--> " ++ place) ++ "\n"

def noteLine (color : Bool) (p : Paint) (label text : String) : String :=
  if text.isEmpty then ""
  else paint color .pipe "   = " ++ paint color p label ++ text ++ "\n"

/-- The compiled contexts, innermost first. -/
def contextLines (color : Bool) (context : List String) : String :=
  if context.isEmpty then ""
  else paint color .pipe "   = " ++ paint color .note "while compiling:\n" ++
    String.join (context.reverse.map fun c => paint color .pipe "     " ++ "in " ++ c ++ "\n")

def Entry.format (color : Bool) (number : String) (e : Entry) : String :=
  headline color e number ++ locationLine color e ++ noteLine color .hint "hint: " e.hint ++
    noteLine color .note "note: " e.note ++ contextLines color e.context

def formatNumbered (color : Bool) (total : Nat) : (i : Nat) → List Entry → List String
  | _, [] => []
  | i, e :: es => e.format color s!"{i}/{total}" :: formatNumbered color total (i + 1) es

def formatAll (color : Bool) : List Entry → String
  | [] => ""
  | [e] => e.format color ""
  | es => join "\n" (formatNumbered color es.length 1 es) ++ "\n" ++
      paint color .header s!"found {es.length} errors" ++ "\n"

mutual

/-- A report with what went wrong added to it. -/
def report (entries : List Entry) : Failure → List Entry
  | .problem p => entries ++ [p.entry]
  | .group ps => ps.foldl (fun entries p => entries ++ [p.entry]) entries
  | .several fs => reportAll entries fs
  | .plain text => entries ++ [{ message := text }]
  | .stopped s => entries ++ [{ message := s.text }]

def reportAll (entries : List Entry) : List Failure → List Entry
  | [] => entries
  | f :: fs => reportAll (report entries f) fs

end

def formatFailure (color : Bool) (f : Failure) : String :=
  match report [] f with
  | [] => Entry.format color "" { message := f.text }
  | entries => formatAll color entries

def warningEntry (w : Warning) : Entry :=
  { isWarning := true, code := w.code, message := w.message, context := w.context }

def formatWarnings (color : Bool) (ws : List Warning) : String :=
  String.join (ws.map fun w => (warningEntry w).format color "")

end CommandPack.Problem
