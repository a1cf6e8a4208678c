import TaskWrappers.Pass
import TaskWrappers.Text.Width

/-!
# Reports for people

What a pass found, as lines on a terminal.
-/

namespace TaskWrappers.Report

def programName : String := "durabletask-gen"

def programVersion : String := "0.1.0"

def rule (n : Nat) : String := .ofList (List.replicate n '─')

def blanks (n : Nat) : String := .ofList (List.replicate n ' ')

/-- A text with blanks behind it up to a number of characters. -/
def column (n : Nat) (s : String) : String :=
  s ++ blanks (n - s.length)

def success (message : String) : String := "  ◉ " ++ message

def info (message : String) : String := "  ◇ " ++ message

def failure (message : String) : String := "  ◆ " ++ message

def caution (message : String) : String := "  ▲ " ++ message

def plain (message : String) : String := "  " ++ message

def header : List String :=
  [failure (programName ++ " " ++ programVersion), ""]

/-- A number with the word for one thing or for several. -/
def count (n : Nat) (one many : String) : String :=
  toString n ++ " " ++ if n = 1 then one else many

def counts (t : TaskSet) : String :=
  "    " ++ count t.orchestrators.length "orchestrator" "orchestrators" ++ " · "
    ++ count t.activities.length "activity" "activities" ++ " · "
    ++ count t.functions.length "function" "functions"

def modeName : Mode → String
  | .hostIntegrated => "azure functions"
  | .standalone => "standalone worker"

/-! ## Warnings -/

/-- A place in a file, marked up so that a terminal can open it. -/
def link (fs : FileSystem) (p : Path) (line : Nat) : String :=
  let target := (fs.canonical? p).getD p
  "\x1b]8;;file://" ++ target.text ++ "#" ++ toString line ++ "\x07"
    ++ p.text ++ ":" ++ toString line ++ "\x1b]8;;\x07"

def spanOf? : Warning → Option Span
  | .nonConstantName _ _ _ span | .syntaxDamage span => some span
  | .duplicateName .. | .invalidName .. => none

def warningLines (fs : FileSystem) (w : Warning) : List String :=
  let place := (spanOf? w).map fun span =>
    plain ("      at " ++ link fs (fs.shown ⟨span.file⟩) (span.start.line + 1))
  caution w.message :: place.toList

def warnings (fs : FileSystem) (ws : List Warning) : List String :=
  if ws.isEmpty then []
  else "" :: caution (count ws.length "warning" "warnings") :: ws.flatMap (warningLines fs)

/-! ## Generating passes -/

def outcome (g : Generation) : String :=
  match g.status with
  | .written => success ("Wrote " ++ g.output.text)
  | .unchanged => success (g.output.text ++ " is up to date")
  | .removed => info ("No tasks found; removed " ++ g.output.text)
  | .skipped => info "No tasks found; nothing to generate"

def generation (fs : FileSystem) (g : Generation) : List String :=
  let details :=
    if g.status = .skipped then []
    else [counts g.analysis.tasks, plain ("    mode: " ++ modeName g.analysis.mode)]
  outcome g :: details ++ warnings fs g.analysis.warnings

def timing (label : String) (milliseconds : Nat) : String :=
  info (label ++ " in " ++ toString milliseconds ++ "ms")

/-! ## Checks -/

def boxWidth : Nat := 55

def boxTop (title : String) : String :=
  plain ("╭─ " ++ title ++ " " ++ rule (boxWidth - (title.length + 2 + 4)) ++ "╮")

def boxLine (content : String) : String :=
  plain ("│ " ++ content ++ blanks (boxWidth - 2 - Text.width content) ++ "│")

def boxBottom : String :=
  plain ("╰" ++ rule (boxWidth - 2) ++ "╯")

def taskLine (kind name input output : String) : String :=
  boxLine ("▸ " ++ column 18 name ++ " " ++ column 13 kind ++ " " ++ input ++ " -> " ++ output)

def kindName : TaskKind → String
  | .orchestrator => "orchestrator"
  | .activity => "activity"

def taskLines (t : TaskSet) : List String :=
  let classes := (t.orchestrators ++ t.activities).map fun t =>
    taskLine (kindName t.kind) t.name t.input t.output
  let functions := t.functions.map fun f => taskLine "function" f.name f.input.type f.result
  if t.isEmpty then [boxLine "No durable tasks found."] else classes ++ functions

def check (fs : FileSystem) (a : Analysis) : List String :=
  let project := a.project.path.map fun p => plain ("    project: " ++ (fs.shown ⟨p⟩).text)
  let verdict :=
    if a.warnings.isEmpty then ["", success "Looking good."] else warnings fs a.warnings
  [boxTop "─▸ TASKS", boxLine ""] ++ taskLines a.tasks ++ [boxLine "", boxBottom, "",
    counts a.tasks,
    plain ("    " ++ toString a.fileCount ++ " source file(s) · mode: " ++ modeName a.mode)]
    ++ project.toList ++ verdict ++ [""]

end TaskWrappers.Report
