import TaskWrappers.CommandLine.Reader
import TaskWrappers.Report.Json
import TaskWrappers.Report.Text

/-!
# Replies

What the program answers to a command line: the lines it prints, its exit status, and the file
system it leaves behind.
-/

namespace TaskWrappers

/-- An answer. Its lines may tell how many milliseconds it took. -/
structure Reply where
  status : Nat
  lines : Nat → List String
  errors : List String
  isWatching : Bool

namespace UsageError

def message : UsageError → String
  | helpAsked => "help was asked for"
  | versionAsked => "the version was asked for"
  | nothingAsked | missingCommand => "a command is needed"
  | unknownCommand => "there is no such command"
  | unknownFlag => "there is no such flag or operand"
  | missingValue => "a flag needs a value"
  | unwantedValue => "a flag takes no value"
  | repeatedFlag => "a flag is given twice"

end UsageError

namespace Reply

def usage : List String := [
  "Usage: " ++ Report.programName ++ " [--config FILE] [-v] COMMAND [FLAGS]",
  "",
  "Commands:",
  "  generate  Generate the wrapper file",
  "  check     Discover tasks and report them without writing anything",
  "  watch     Regenerate whenever a source file changes",
  "",
  "Flags:",
  "  -s, --source DIR      C# source directory",
  "  -o, --out DIR         Output directory for the generated file",
  "  -p, --project FILE    Project file to read references from",
  "  -r, --reference NAME  Extra referenced module name, may be repeated",
  "  -l, --language NAME   Source language",
  "      --json            Print the report of a check as JSON"]

/-- An answer that went well. -/
def success (lines : Nat → List String) : Reply := ⟨0, lines, [], false⟩

/-- An answer that stops on a failure after some lines. -/
def failure (lines : List String) (e : Failure) : Reply := ⟨1, fun _ => lines, [e.message], false⟩

def ofUsageError : UsageError → Reply
  | .helpAsked => success fun _ => usage
  | .versionAsked => success fun _ => [Report.programName ++ " " ++ Report.programVersion]
  | .nothingAsked => ⟨2, fun _ => [], usage, false⟩
  | e => ⟨2, fun _ => [], [e.message], false⟩

def generate (fs : FileSystem) (c : Config) : FileSystem × Reply :=
  match Generation.run fs c with
  | (after, .error e) => (after, failure Report.header e)
  | (after, .ok g) =>
    (after, success fun ms =>
      Report.header ++ Report.generation after g ++ [Report.timing "Done" ms, ""])

def check (fs : FileSystem) (c : Config) (asJson : Bool) : Reply :=
  match Analysis.run fs c with
  | .error e => failure [] e
  | .ok a =>
    success fun _ => if asJson then [a.document.print] else Report.check fs a

/-- One pass of a watch: a failure is told and does not end it. -/
def regenerate (fs : FileSystem) (c : Config) : FileSystem × (Nat → List String) :=
  match Generation.run fs c with
  | (after, .error e) => (after, fun _ => [Report.failure e.message])
  | (after, .ok g) =>
    (after, fun ms => Report.generation after g ++ [Report.timing "Generated" ms])

/-- The start of a watch, which goes on if there is something to watch. -/
def watch (fs : FileSystem) (c : Config) : FileSystem × Reply :=
  let (after, pass) := regenerate fs c
  if (after.entry? c.sourceDir).isSome then
    let watching := Report.info ("Watching " ++ (after.shown c.sourceDir).text ++ " for changes...")
    (after, ⟨0, fun ms => Report.header ++ pass ms ++ ["", watching], [], true⟩)
  else (after, ⟨1, fun ms => Report.header ++ pass ms, ["There is nothing to watch"], false⟩)

def ofRequest (fs : FileSystem) (r : Request) : FileSystem × Reply :=
  match r.config fs with
  | .error e => (fs, failure [] e)
  | .ok c =>
    match r.command with
    | .generate => generate fs c
    | .check => (fs, check fs c r.asJson)
    | .watch => watch fs c

/-- The answer to the words of a command line. -/
def ofWords (fs : FileSystem) (words : List String) : FileSystem × Reply :=
  match Request.read words with
  | .error e => (fs, ofUsageError e)
  | .ok r => ofRequest fs r

end Reply

end TaskWrappers
